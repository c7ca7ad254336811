import Mathlib.Logic.Function.Basic

/-!
# Shared mailboxes

A mailbox keeps only the last value put into it.  A client puts its value into one
mailbox and collects what is there later; between the two it holds the mailbox.  A
client collects its own value when nobody else puts into a mailbox that is held.
-/

namespace RinhaBackend.Foundation

structure Hold (Client Key Value : Type) where
  client : Client
  key : Key
  value : Value

structure Mailboxes (Client Key Value : Type) where
  slots : Key → Option Value
  holds : List (Hold Client Key Value)

namespace Mailboxes

variable {Client Key Value : Type}

def empty : Mailboxes Client Key Value := ⟨fun _ => none, []⟩

/-- Nobody holds the mailbox. -/
def Free (boxes : Mailboxes Client Key Value) (key : Key) : Prop :=
  ∀ hold ∈ boxes.holds, hold.key ≠ key

/-- Every held mailbox still has the value of its holder. -/
def Intact (boxes : Mailboxes Client Key Value) : Prop :=
  ∀ hold ∈ boxes.holds, boxes.slots hold.key = some hold.value

theorem intact_empty : (empty : Mailboxes Client Key Value).Intact := nofun

variable {boxes : Mailboxes Client Key Value} {client : Client} {key : Key} {value : Value}
variable {hold : Hold Client Key Value}

section Put

variable [DecidableEq Key]

instance (boxes : Mailboxes Client Key Value) (key : Key) : Decidable (boxes.Free key) :=
  inferInstanceAs (Decidable (∀ hold ∈ boxes.holds, _))

def put (boxes : Mailboxes Client Key Value) (client : Client) (key : Key)
    (value : Value) : Mailboxes Client Key Value :=
  ⟨Function.update boxes.slots key (some value), boxes.holds ++ [⟨client, key, value⟩]⟩

theorem mem_put (h : hold ∈ (boxes.put client key value).holds) :
    hold ∈ boxes.holds ∨ hold = ⟨client, key, value⟩ := by
  simpa [put] using h

theorem Intact.put (h : boxes.Intact) (hfree : boxes.Free key) :
    (boxes.put client key value).Intact := by
  intro hold hmem
  rcases mem_put hmem with hold' | rfl
  · simp only [Mailboxes.put, Function.update_of_ne (hfree hold hold')]
    exact h hold hold'
  · exact Function.update_self _ _ _

end Put

section Release

variable [DecidableEq Client]

def holdOf (boxes : Mailboxes Client Key Value) (client : Client) :
    Option (Hold Client Key Value) :=
  boxes.holds.find? fun hold => hold.client = client

def release (boxes : Mailboxes Client Key Value) (client : Client) :
    Mailboxes Client Key Value :=
  { boxes with holds := boxes.holds.filter fun hold => hold.client ≠ client }

theorem mem_of_holdOf (h : boxes.holdOf client = some hold) :
    hold ∈ boxes.holds ∧ hold.client = client :=
  ⟨List.mem_of_find?_eq_some h, by simpa using List.find?_some h⟩

theorem mem_release (h : hold ∈ (boxes.release client).holds) :
    hold ∈ boxes.holds ∧ hold.client ≠ client := by
  simpa [release] using h

theorem Intact.release (h : boxes.Intact) : (boxes.release client).Intact :=
  fun hold hmem => h hold (mem_release hmem).1

end Release

end Mailboxes

end RinhaBackend.Foundation
