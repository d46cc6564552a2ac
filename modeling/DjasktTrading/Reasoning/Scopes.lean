import Mathlib.Data.List.Basic

/-!
# Scopes — a variable that nested scopes set and put back

A scope that is entered saves what the variable holds and sets it; when it is left it puts the saved
value back.  Scopes that are left in the order opposite to that in which they were entered leave no
trace.
-/

namespace Reasoning

variable {α β : Type*}

structure Scopes (α : Type*) where
  var : α
  /-- what the open scopes have saved, the innermost first -/
  saved : List α
deriving DecidableEq

namespace Scopes

def outside (outer : α) : Scopes α := ⟨outer, []⟩

def enter (s : Scopes α) (value : α) : Scopes α := ⟨value, s.var :: s.saved⟩

def leave (s : Scopes α) : Option (Scopes α) :=
  match s.saved with
  | [] => none
  | old :: saved => some ⟨old, saved⟩

/-- A scope has been entered for each of the marks, the first of them last. -/
def entered (f : β → α) (outer : α) (marks : List β) : Scopes α :=
  marks.foldr (fun mark s => s.enter (f mark)) (outside outer)

variable (f : β → α) (outer : α) (marks : List β) (mark : β)

theorem enter_entered : (entered f outer marks).enter (f mark) = entered f outer (mark :: marks) := rfl

theorem leave_entered : (entered f outer (mark :: marks)).leave = some (entered f outer marks) := rfl

/-- The variable is what the innermost scope has set, or what it was outside. -/
theorem var_entered : (entered f outer marks).var = (marks.head?.map f).getD outer := by
  cases marks with
  | nil => rfl
  | cons mark marks => rfl

end Scopes

end Reasoning
