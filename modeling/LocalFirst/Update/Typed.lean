import LocalFirst.Record
import LocalFirst.Update.Apply
import LocalFirst.Update.Wire

/-!
# Updates of typed values

An update changes a typed value through its document form: the value is
lowered, the document updated, and the result read as a value of the same type.
Updates are typed values themselves, in their wire form.
-/

namespace LocalFirst

instance : DocumentForm Update :=
  ⟨Update.toDocument, Update.ofDocument⟩

namespace Update

/-- Apply updates to a typed value through its document form. -/
def applyTo {α : Type} [DocumentForm α] (now : Instant) (value : α) (updates : List Update) :
    Except UpdateError α := do
  DocumentForm.ofDocument (← applyAll now (DocumentForm.toDocument value) updates)

/-- The form of an update in which it is stored and sent. -/
def stored (update : Update) : Except UpdateError Update :=
  ofDocument update.toDocument

end Update

end LocalFirst
