import Mathlib.Logic.Function.Basic

/-!
# Objects that own a handle

Objects in memory that hold a handle each, or none, and release it when they are destroyed.  Moving
from an object constructs a new one with its handle and leaves the old one without; moving from a
destroyed object is undefined.  `SoleOwner` says that one object holds a handle that is open, and no
other holds any: it is handed over by `move` and survives the destruction of every other object.
-/

/-- An object; none of its members exist once it has been destroyed, or before it is constructed. -/
inductive Owner (H : Type*) where
  | destroyed
  | live (handle : Option H)

/-- The objects constructed so far, and the handles that are open. -/
structure Owners (H : Type*) where
  object : Nat → Owner H
  constructed : Nat
  isOpen : H → Bool

namespace Owners

variable {H : Type*} [DecidableEq H]

open Function (update)

/-- Nothing has been constructed. -/
def empty : Owners H where
  object _ := .destroyed
  constructed := 0
  isOpen _ := false

/-- A new object opens the handle `h`. -/
def construct (s : Owners H) (h : H) : Owners H where
  object := update s.object s.constructed (.live (some h))
  constructed := s.constructed + 1
  isOpen := update s.isOpen h true

omit [DecidableEq H] in
/-- A new object is constructed by moving from `o`. -/
def move (s : Owners H) (o : Nat) : Option (Owners H) :=
  match s.object o with
  | .destroyed => none
  | .live handle => some { s with
      object := update (update s.object o (.live none)) s.constructed (.live handle)
      constructed := s.constructed + 1 }

/-- The object is destroyed and closes the handle it holds. -/
def destroy (s : Owners H) (o : Nat) : Owners H :=
  { s with
    object := update s.object o .destroyed
    isOpen :=
      match s.object o with
      | .live (some h) => update s.isOpen h false
      | _ => s.isOpen }

omit [DecidableEq H] in
/-- The object exists and holds an open handle. -/
def holdsOpen (s : Owners H) (o : Nat) : Bool :=
  match s.object o with
  | .live (some h) => s.isOpen h
  | _ => false

/-! ### The one owner -/

/-- What has not been constructed does not exist. -/
def Fresh (s : Owners H) : Prop := ∀ o, s.constructed ≤ o → s.object o = .destroyed

/-- No object holds a handle. -/
def NoOwner (s : Owners H) : Prop := ∀ o h, s.object o ≠ .live (some h)

/-- No object but `o` holds a handle. -/
def NoOtherOwner (s : Owners H) (o : Nat) : Prop := ∀ p, p ≠ o → ∀ h, s.object p ≠ .live (some h)

/-- The object `o` holds an open handle, and no other holds any. -/
structure SoleOwner (s : Owners H) (o : Nat) : Prop where
  holds : s.holdsOpen o = true
  sole : s.NoOtherOwner o

section

variable {s t : Owners H} {o p : Nat} {h : H}

omit [DecidableEq H] in
theorem SoleOwner.exists_live (hs : s.SoleOwner o) :
    ∃ h, s.object o = .live (some h) ∧ s.isOpen h = true := by
  have hholds := hs.holds
  unfold holdsOpen at hholds
  split at hholds
  · exact ⟨_, by assumption, hholds⟩
  · cases hholds

omit [DecidableEq H] in
theorem SoleOwner.lt_constructed (hs : s.SoleOwner o) (hf : s.Fresh) : o < s.constructed := by
  obtain ⟨h, hlive, -⟩ := hs.exists_live
  by_contra hge
  rw [hf o (by omega)] at hlive
  cases hlive

theorem NoOwner.construct (hs : s.NoOwner) (h : H) :
    (s.construct h).SoleOwner s.constructed := by
  refine ⟨by simp [Owners.construct, holdsOpen], fun p hp k => ?_⟩
  show update s.object s.constructed _ p ≠ _
  rw [Function.update_of_ne hp]
  exact hs p k

omit [DecidableEq H] in
/-- Moving from the owner makes the new object the owner. -/
theorem SoleOwner.move (hs : s.SoleOwner o) (hf : s.Fresh) :
    ∃ t, s.move o = some t ∧ t.SoleOwner s.constructed ∧ t.Fresh ∧
      t.constructed = s.constructed + 1 := by
  obtain ⟨h, hlive, hopen⟩ := hs.exists_live
  have hmove : s.move o = some { s with
      object := update (update s.object o (.live none)) s.constructed (.live (some h))
      constructed := s.constructed + 1 } := by
    simp only [Owners.move, hlive]
  refine ⟨_, hmove, ⟨?_, ?_⟩, ?_, rfl⟩
  · simp [holdsOpen, hopen]
  · intro p hp k
    show update (update s.object o _) s.constructed _ p ≠ _
    rw [Function.update_of_ne hp]
    by_cases hpo : p = o
    · subst hpo
      simp
    · rw [Function.update_of_ne hpo]
      exact hs.sole p hpo k
  · intro p (hp : s.constructed + 1 ≤ p)
    have hlt := hs.lt_constructed hf
    show update (update s.object o _) s.constructed _ p = _
    rw [Function.update_of_ne (by omega), Function.update_of_ne (by omega)]
    exact hf p (by omega)

/-- Another object is destroyed. -/
theorem SoleOwner.destroy (hs : s.SoleOwner o) (hp : p ≠ o) : (s.destroy p).SoleOwner o := by
  obtain ⟨h, hlive, hopen⟩ := hs.exists_live
  have hnone := hs.sole p hp
  refine ⟨?_, fun q hq k => ?_⟩
  · have hkeep : (s.destroy p).isOpen = s.isOpen := by
      show (match s.object p with | .live (some h) => _ | _ => s.isOpen) = s.isOpen
      split
      · exact absurd (by assumption) (hnone _)
      · rfl
    have hobject : (s.destroy p).object o = .live (some h) := by
      rw [← hlive]
      exact Function.update_of_ne (Ne.symm hp) _ _
    simp only [holdsOpen, hobject, hkeep, hopen]
  · show update s.object p _ q ≠ _
    by_cases hqp : q = p
    · subst hqp
      simp
    · rw [Function.update_of_ne hqp]
      exact hs.sole q hq k

theorem NoOwner.destroy (hs : s.NoOwner) (p : Nat) : (s.destroy p).NoOwner := by
  intro o h
  show update s.object p _ o ≠ _
  by_cases hop : o = p
  · subst hop
    simp
  · rw [Function.update_of_ne hop]
    exact hs o h

@[simp] theorem object_destroy_self (s : Owners H) (o : Nat) :
    (s.destroy o).object o = .destroyed := by
  simp [Owners.destroy]

theorem destroyed_destroy (hs : s.object o = .destroyed) (p : Nat) :
    (s.destroy p).object o = .destroyed := by
  by_cases hpo : o = p
  · subst hpo
    exact object_destroy_self s o
  · simp [Owners.destroy, hpo, hs]

/-- Destroying an object leaves the sole owner in place or destroys it. -/
theorem soleOwner_or_destroyed (hs : s.SoleOwner o ∨ s.object o = .destroyed) (p : Nat) :
    (s.destroy p).SoleOwner o ∨ (s.destroy p).object o = .destroyed := by
  rcases hs with hs | hs
  · by_cases hpo : p = o
    · subst hpo
      exact .inr (object_destroy_self s p)
    · exact .inl (hs.destroy hpo)
  · exact .inr (destroyed_destroy hs p)

theorem Fresh.destroy (hs : s.Fresh) (p : Nat) : (s.destroy p).Fresh :=
  fun o ho => destroyed_destroy (hs o ho) p

theorem Fresh.construct (hs : s.Fresh) (h : H) : (s.construct h).Fresh := by
  intro o (ho : s.constructed + 1 ≤ o)
  show update s.object s.constructed _ o = _
  rw [Function.update_of_ne (by omega)]
  exact hs o (by omega)

omit [DecidableEq H] in
theorem fresh_empty : (empty : Owners H).Fresh := fun _ _ => rfl

omit [DecidableEq H] in
theorem noOwner_empty : (empty : Owners H).NoOwner := by
  intro o h heq
  cases heq

end

end Owners
