import Mathlib.Logic.Equiv.Basic
import Mathlib.Tactic.Common
import Lizlib.Common.File

/-!
# One owner for each descriptor

`Exclusive` is what the move-only `File` is for: the descriptor of each object is open and refers to
what the object has been given, no two objects have the same one, none is leaked, and what an object
closes is its own.

`exclusive_iff`: this holds along a run exactly if `From` is given open descriptors that no object
has, no `Close` fails, and other code leaves the objects' descriptors alone (`Proper`).  `~Job` does
not: it closes the descriptor of its timer channel, whose `File` closes the same number again.
-/

namespace Lizlib

namespace File

theorem descriptor_of_valid {f : File} (h : f.Valid) : f.descriptor = some f.fd_ := if_pos h

theorem descriptor_of_not_valid {f : File} (h : ¬ f.Valid) : f.descriptor = none := if_neg h

theorem not_valid_mk (flags : Int) : ¬ (⟨INVALID_FD, flags⟩ : File).Valid := not_not.mpr rfl

end File

namespace Files

open Function (update)

variable {O : Type*}

/-- Each descriptor has one owner, and an owner closes nothing but its own. -/
structure Exclusive (s : Files O) : Prop where
  /-- An object's descriptor is open, and refers to what the object has been given. -/
  own : ∀ o fd, s.descriptor o = some fd → ∃ n, s.table fd = some n ∧ s.given o = some n
  /-- No two objects have the same descriptor. -/
  sole : ∀ o p fd, s.descriptor o = some fd → s.descriptor p = some fd → o = p
  /-- As long as what an object has been given is open, some object has it. -/
  kept : ∀ fd n, s.table fd = some n → n ∈ s.taken → ∃ o, s.descriptor o = some fd
  /-- What an object has closed was open, and its own. -/
  closes : ∀ x ∈ s.closes, x.1 = x.2 ∧ x.2 ≠ none

/-- The step leaves each descriptor with its owner. -/
def Proper : FileLabel O → Files O → Prop
  | .from _ fd, s =>
    fd = File.INVALID_FD ∨ s.table fd ≠ none ∧ ∀ o, s.descriptor o ≠ some fd
  | .close o ok, s => s.descriptor o ≠ none → ok = true
  | .foreignClose fd, s => ∀ o, s.descriptor o ≠ some fd
  | _, _ => True

/-- The open files are numbered, and each has one descriptor. -/
structure Numbered (s : Files O) : Prop where
  nonneg : ∀ fd n, s.table fd = some n → 0 ≤ fd
  lt : ∀ fd n, s.table fd = some n → n < s.opened
  taken : ∀ n ∈ s.taken, n < s.opened
  inj : ∀ fd fd' n, s.table fd = some n → s.table fd' = some n → fd = fd'

/-! ### The numbers -/

section Numbered

variable {s t : Files O} (h : Numbered s)

include h

theorem Numbered.close (fd : Int) (htable : t.table = update s.table fd none)
    (hopened : t.opened = s.opened) (htaken : t.taken = s.taken) : Numbered t := by
  have hold : ∀ fd' n, t.table fd' = some n → s.table fd' = some n := by
    intro fd' n hn
    rw [htable] at hn
    by_cases hfd : fd' = fd
    · rw [hfd, Function.update_self] at hn
      cases hn
    · rwa [Function.update_of_ne hfd] at hn
  refine ⟨fun fd' n hn => h.nonneg fd' n (hold fd' n hn), fun fd' n hn => ?_, fun n hn => ?_,
    fun fd' fd'' n hn hn' => ?_⟩
  · rw [hopened]
    exact h.lt fd' n (hold fd' n hn)
  · rw [hopened]
    exact h.taken n (htaken ▸ hn)
  · exact h.inj fd' fd'' n (hold fd' n hn) (hold fd'' n hn')

theorem Numbered.open {fd : Int} (hfd : 0 ≤ fd)
    (htable : t.table = update s.table fd (some s.opened)) (hopened : t.opened = s.opened + 1)
    (htaken : ∀ n ∈ t.taken, n ∈ s.taken ∨ n = s.opened) : Numbered t := by
  have hcases : ∀ fd' n, t.table fd' = some n →
      fd' = fd ∧ n = s.opened ∨ fd' ≠ fd ∧ s.table fd' = some n := by
    intro fd' n hn
    rw [htable] at hn
    by_cases hne : fd' = fd
    · rw [hne, Function.update_self, Option.some.injEq] at hn
      exact .inl ⟨hne, hn.symm⟩
    · rw [Function.update_of_ne hne] at hn
      exact .inr ⟨hne, hn⟩
  refine ⟨fun fd' n hn => ?_, fun fd' n hn => ?_, fun n hn => ?_, fun fd' fd'' n hn hn' => ?_⟩
  · rcases hcases fd' n hn with ⟨rfl, -⟩ | ⟨-, hn⟩
    · exact hfd
    · exact h.nonneg fd' n hn
  · rw [hopened]
    rcases hcases fd' n hn with ⟨-, rfl⟩ | ⟨-, hn⟩
    · omega
    · have := h.lt fd' n hn
      omega
  · rw [hopened]
    rcases htaken n hn with hn | rfl
    · have := h.taken n hn
      omega
    · omega
  · rcases hcases fd' n hn with ⟨rfl, rfl⟩ | ⟨-, hn⟩ <;>
      rcases hcases fd'' _ hn' with ⟨rfl, heq⟩ | ⟨-, hn'⟩
    · rfl
    · exact absurd (h.lt fd'' _ hn') (by omega)
    · subst heq
      exact absurd (h.lt fd' _ hn) (by omega)
    · exact h.inj fd' fd'' n hn hn'

end Numbered

/-! ### How the owners change -/

section Owners

variable {s t : Files O} (h : Exclusive s)

include h

/-- **The owners change places**, and their descriptors are left alone. -/
theorem Exclusive.permute (σ : Equiv.Perm O) (hd : ∀ q, t.descriptor q = s.descriptor (σ q))
    (hgiven : ∀ q, s.descriptor (σ q) ≠ none → t.given q = s.given (σ q))
    (htable : ∀ q fd, s.descriptor q = some fd → t.table fd = s.table fd)
    (hkept : ∀ fd n, t.table fd = some n → n ∈ t.taken → s.table fd = some n ∧ n ∈ s.taken)
    (hcloses : t.closes = s.closes) : Exclusive t := by
  refine ⟨fun q fd hq => ?_, fun q r fd hq hr => ?_, fun fd n hn hmem => ?_, ?_⟩
  · rw [hd] at hq
    rw [htable _ fd hq, hgiven q (by simp [hq])]
    exact h.own (σ q) fd hq
  · rw [hd] at hq hr
    exact σ.injective (h.sole (σ q) (σ r) fd hq hr)
  · obtain ⟨hn, hmem⟩ := hkept fd n hn hmem
    obtain ⟨q, hq⟩ := h.kept fd n hn hmem
    refine ⟨σ.symm q, ?_⟩
    rw [hd, Equiv.apply_symm_apply, hq]
  · rw [hcloses]
    exact h.closes

/-- **The owners stay**, and their descriptors are left alone. -/
theorem Exclusive.congr (hd : t.descriptor = s.descriptor)
    (hgiven : ∀ q, s.descriptor q ≠ none → t.given q = s.given q)
    (htable : ∀ q fd, s.descriptor q = some fd → t.table fd = s.table fd)
    (hkept : ∀ fd n, t.table fd = some n → n ∈ t.taken → s.table fd = some n ∧ n ∈ s.taken)
    (hcloses : t.closes = s.closes) : Exclusive t :=
  h.permute (Equiv.refl O) (fun _ => congrFun hd _) hgiven htable hkept hcloses

variable [DecidableEq O] {o : O} {fd : Int}

/-- **A new owner** is given a descriptor that no object has. -/
theorem Exclusive.gain {n : Nat} (hd : t.descriptor = update s.descriptor o (some fd))
    (hnew : ∀ q, s.descriptor q ≠ some fd) (hno : s.descriptor o = none)
    (hgiven : t.given = update s.given o (some n)) (hfd : t.table fd = some n)
    (htable : ∀ fd', fd' ≠ fd → t.table fd' = s.table fd')
    (hkept : ∀ fd' m, fd' ≠ fd → s.table fd' = some m → m ∈ t.taken → m ∈ s.taken)
    (hcloses : t.closes = s.closes) : Exclusive t := by
  have hcases : ∀ q fd', t.descriptor q = some fd' →
      q = o ∧ fd' = fd ∨ q ≠ o ∧ fd' ≠ fd ∧ s.descriptor q = some fd' := by
    intro q fd' hq
    rw [hd] at hq
    by_cases hqo : q = o
    · rw [hqo, Function.update_self, Option.some.injEq] at hq
      exact .inl ⟨hqo, hq.symm⟩
    · rw [Function.update_of_ne hqo] at hq
      refine .inr ⟨hqo, ?_, hq⟩
      rintro rfl
      exact hnew q hq
  refine ⟨fun q fd' hq => ?_, fun q r fd' hq hr => ?_, fun fd' m hm hmem => ?_, ?_⟩
  · rw [hgiven]
    rcases hcases q fd' hq with ⟨rfl, rfl⟩ | ⟨hqo, hne, hq⟩
    · exact ⟨n, hfd, Function.update_self _ _ _⟩
    · rw [htable fd' hne, Function.update_of_ne hqo]
      exact h.own q fd' hq
  · rcases hcases q fd' hq with ⟨rfl, rfl⟩ | ⟨-, hne, hq⟩
    · rcases hcases r _ hr with ⟨rfl, -⟩ | ⟨-, hne, -⟩
      · rfl
      · exact absurd rfl hne
    · rcases hcases r fd' hr with ⟨-, rfl⟩ | ⟨-, -, hr⟩
      · exact absurd rfl hne
      · exact h.sole q r fd' hq hr
  · by_cases hne : fd' = fd
    · exact ⟨o, by rw [hd, Function.update_self, hne]⟩
    · rw [htable fd' hne] at hm
      obtain ⟨q, hq⟩ := h.kept fd' m hm (hkept fd' m hne hm hmem)
      have hqo : q ≠ o := by
        rintro rfl
        cases hno.symm.trans hq
      exact ⟨q, by rw [hd, Function.update_of_ne hqo, hq]⟩
  · rw [hcloses]
    exact h.closes

/-- **The owner closes** its descriptor, and has none afterwards. -/
theorem Exclusive.release (ho : s.descriptor o = some fd)
    (hd : t.descriptor = update s.descriptor o none)
    (hgiven : ∀ q, q ≠ o → t.given q = s.given q) (htable : t.table = update s.table fd none)
    (htaken : t.taken = s.taken) (hcloses : t.closes = s.closes ++ [(s.given o, s.table fd)]) :
    Exclusive t := by
  obtain ⟨n, hn, hgo⟩ := h.own o fd ho
  have hcases : ∀ q fd', t.descriptor q = some fd' →
      q ≠ o ∧ fd' ≠ fd ∧ s.descriptor q = some fd' := by
    intro q fd' hq
    rw [hd] at hq
    have hqo : q ≠ o := by
      rintro rfl
      rw [Function.update_self] at hq
      cases hq
    rw [Function.update_of_ne hqo] at hq
    refine ⟨hqo, ?_, hq⟩
    rintro rfl
    exact hqo (h.sole q o _ hq ho)
  refine ⟨fun q fd' hq => ?_, fun q r fd' hq hr => ?_, fun fd' m hm hmem => ?_, fun x hx => ?_⟩
  · obtain ⟨hqo, hne, hq⟩ := hcases q fd' hq
    rw [htable, Function.update_of_ne hne, hgiven q hqo]
    exact h.own q fd' hq
  · exact h.sole q r fd' (hcases q fd' hq).2.2 (hcases r fd' hr).2.2
  · rw [htable] at hm
    by_cases hne : fd' = fd
    · rw [hne, Function.update_self] at hm
      cases hm
    · rw [Function.update_of_ne hne] at hm
      obtain ⟨q, hq⟩ := h.kept fd' m hm (htaken ▸ hmem)
      have hqo : q ≠ o := by
        rintro rfl
        exact hne (Option.some.inj (hq.symm.trans ho))
      exact ⟨q, by rw [hd, Function.update_of_ne hqo, hq]⟩
  · rw [hcloses, List.mem_append, List.mem_singleton] at hx
    rcases hx with hx | rfl
    · exact h.closes x hx
    · exact ⟨hgo.trans hn.symm, by simp [hn]⟩

end Owners

/-! ### The descriptors -/

theorem numbered_start : Numbered (start : Files O) := by
  constructor <;> simp [start]

theorem exclusive_start : Exclusive (start : Files O) := by
  constructor <;> simp [start, descriptor]

variable [DecidableEq O] {s t : Files O} {o p : O} {fd : Int}

theorem descriptor_update {f : Option File} (h : t.file = update s.file o f) :
    t.descriptor = update s.descriptor o (f.bind File.descriptor) := by
  ext q : 1
  rw [descriptor, h]
  by_cases hq : q = o
  · rw [hq, Function.update_self, Function.update_self]
  · rw [Function.update_of_ne hq, Function.update_of_ne hq, descriptor]

omit [DecidableEq O] in
theorem descriptor_none (h : s.file o = none) : s.descriptor o = none := by
  rw [descriptor, h, Option.bind_none]

omit [DecidableEq O] in
theorem descriptor_some {f : File} (h : s.file o = some f) (hf : f.Valid) :
    s.descriptor o = some f.fd_ := by
  rw [descriptor, h, Option.bind_some, File.descriptor_of_valid hf]

omit [DecidableEq O] in
theorem descriptor_invalid {f : File} (h : s.file o = some f) (hf : ¬ f.Valid) :
    s.descriptor o = none := by
  rw [descriptor, h, Option.bind_some, File.descriptor_of_not_valid hf]

/-- Two objects change places. -/
theorem descriptor_swap {f g : Option File}
    (h : t.file = update (update s.file o f) p g) (hf : f.bind File.descriptor = s.descriptor p)
    (hg : g.bind File.descriptor = s.descriptor o) (q : O) :
    t.descriptor q = s.descriptor (Equiv.swap o p q) := by
  rw [descriptor, h]
  by_cases hqp : q = p
  · rw [hqp, Function.update_self, hg, Equiv.swap_apply_right]
  rw [Function.update_of_ne hqp]
  by_cases hqo : q = o
  · rw [hqo, Function.update_self, hf, Equiv.swap_apply_left]
  · rw [Function.update_of_ne hqo, Equiv.swap_apply_of_ne_of_ne hqo hqp, descriptor]

omit [DecidableEq O] in
/-- **The kernel's answer** is a descriptor that no object has. -/
theorem Exclusive.ne_of_unused (h : Exclusive s) (hfd : s.table fd = none) (q : O) :
    s.descriptor q ≠ some fd := by
  intro hq
  obtain ⟨n, hn, -⟩ := h.own q fd hq
  rw [hfd] at hn
  cases hn

omit [DecidableEq O] in
theorem unused_iff : s.unused fd = true ↔ 0 ≤ fd ∧ s.table fd = none := by
  simp [unused]

/-- **A file without a descriptor** takes the place of another. -/
theorem Exclusive.blank (h : Exclusive s) {f : Option File} (hf : f.bind File.descriptor = none)
    (ho : s.descriptor o = none) (g : Option Nat) :
    Exclusive { s with file := update s.file o f, given := update s.given o g } := by
  refine h.congr ?_ (fun q hq => Function.update_of_ne ?_ _ _) (fun _ _ _ => rfl)
    (fun _ _ hm hmem => ⟨hm, hmem⟩) rfl
  · rw [descriptor_update rfl, hf, ← ho, Function.update_eq_self]
  · rintro rfl
    exact hq ho

omit [DecidableEq O] in
theorem Numbered.congr (hn : Numbered s) (htable : t.table = s.table)
    (hopened : t.opened = s.opened) (htaken : t.taken = s.taken) : Numbered t := by
  constructor
  · rw [htable]
    exact hn.nonneg
  · rw [htable, hopened]
    exact hn.lt
  · rw [htaken, hopened]
    exact hn.taken
  · rw [htable]
    exact hn.inj

/-! ### The steps -/

/-- A constructor is given what the kernel answers. -/
theorem exclusive_open {flags : Int} (hn : Numbered s) (h : Exclusive s)
    (ht : step (.open o fd flags) s = some t) : Numbered t ∧ Exclusive t := by
  rw [step] at ht
  split at ht
  · cases ht
  rename_i hfile
  have ho := descriptor_none (not_not.mp hfile)
  split at ht
  · rename_i hfd
    obtain rfl := Option.some.inj ht
    refine ⟨hn.congr rfl rfl rfl, h.blank ?_ ho none⟩
    rw [hfd]
    exact File.descriptor_of_not_valid (File.not_valid_mk flags)
  · rename_i hfd
    split at ht
    · rename_i hunused
      obtain ⟨hpos, hnone⟩ := unused_iff.mp hunused
      obtain rfl := Option.some.inj ht
      refine ⟨hn.open hpos rfl rfl fun n hmem => by simpa using hmem, ?_⟩
      refine h.gain (n := s.opened) (o := o) ?_ (h.ne_of_unused hnone) ho rfl
        (Function.update_self _ _ _) (fun fd' hne => Function.update_of_ne hne _ _) ?_ rfl
      · rw [descriptor_update rfl]
        exact congrArg (update s.descriptor o) (File.descriptor_of_valid hfd)
      · intro fd' m _ hm hmem
        rcases List.mem_append.mp hmem with hmem | hmem
        · exact hmem
        · have := hn.lt fd' m hm
          have := List.mem_singleton.mp hmem
          omega
    · cases ht

/-- **`From`** makes the object an owner if it is the first one of an open descriptor. -/
theorem exclusive_from_iff (hn : Numbered s) (h : Exclusive s)
    (ht : step (.from o fd) s = some t) :
    Numbered t ∧ (Exclusive t ↔ Proper (.from o fd) s) := by
  rw [step] at ht
  split at ht
  · cases ht
  rename_i hfile
  have ho := descriptor_none (not_not.mp hfile)
  obtain rfl := Option.some.inj ht
  have hnum : Numbered { s with
      file := update s.file o (some ⟨fd, 0⟩)
      given := update s.given o (s.table fd)
      taken := s.taken ++ (s.table fd).toList } := by
    refine ⟨hn.nonneg, hn.lt, fun n hmem => ?_, hn.inj⟩
    rcases List.mem_append.mp hmem with hmem | hmem
    · exact hn.taken n hmem
    · exact hn.lt fd n (Option.mem_toList.mp hmem)
  refine ⟨hnum, ?_⟩
  rw [Proper]
  by_cases hfd : fd = File.INVALID_FD
  · refine iff_of_true ?_ (.inl hfd)
    have hnone : s.table fd = none := by
      by_contra hsome
      obtain ⟨n, hsome⟩ := Option.ne_none_iff_exists'.mp hsome
      have := hn.nonneg fd n hsome
      rw [hfd, File.INVALID_FD] at this
      omega
    rw [hnone, Option.toList_none, List.append_nil, hfd]
    refine h.blank ?_ ho none
    exact File.descriptor_of_not_valid (File.not_valid_mk 0)
  rw [or_iff_right hfd]
  have hd : descriptor { s with
      file := update s.file o (some ⟨fd, 0⟩)
      given := update s.given o (s.table fd)
      taken := s.taken ++ (s.table fd).toList } = update s.descriptor o (some fd) := by
    rw [descriptor_update rfl]
    exact congrArg (update s.descriptor o) (File.descriptor_of_valid hfd)
  constructor
  · intro hex
    constructor
    · obtain ⟨n, hsome, -⟩ := hex.own o fd (by rw [hd, Function.update_self])
      exact fun hnone => by cases hnone.symm.trans hsome
    · intro q hq
      have hqo : q ≠ o := by
        rintro rfl
        cases ho.symm.trans hq
      refine hqo (hex.sole q o fd ?_ ?_)
      · rw [hd, Function.update_of_ne hqo, hq]
      · rw [hd, Function.update_self]
  · rintro ⟨hopen, hnew⟩
    obtain ⟨n, hsome⟩ := Option.ne_none_iff_exists'.mp hopen
    refine h.gain (n := n) (o := o) hd hnew ho ?_ hsome (fun _ _ => rfl) ?_ rfl
    · exact congrArg (update s.given o) hsome
    · intro fd' m hne hm hmem
      rcases List.mem_append.mp hmem with hmem | hmem
      · exact hmem
      · exact absurd (hn.inj fd' fd m hm (Option.mem_toList.mp hmem)) hne

/-- **A move** takes the descriptor along. -/
theorem exclusive_move (hn : Numbered s) (h : Exclusive s)
    (ht : step (.move o p) s = some t) : Numbered t ∧ Exclusive t := by
  rw [step] at ht
  split at ht
  · rename_i f hfo hfp
    obtain rfl := Option.some.inj ht
    have hop : p ≠ o := by
      rintro rfl
      cases hfo.symm.trans hfp
    refine ⟨hn.congr rfl rfl rfl, h.permute (Equiv.swap p o) (descriptor_swap rfl ?_ ?_)
      (fun q hq => ?_) (fun _ _ _ => rfl) (fun _ _ hm hmem => ⟨hm, hmem⟩) rfl⟩
    · rw [descriptor_none hfo]
      exact File.descriptor_of_not_valid (File.not_valid_mk 0)
    · rw [descriptor, hfp]
    · show update (update s.given p none) o (s.given p) q = _
      by_cases hqo : q = o
      · rw [hqo, Function.update_self, Equiv.swap_apply_right]
      have hqp : q ≠ p := by
        rintro rfl
        rw [Equiv.swap_apply_left] at hq
        exact hq (descriptor_none hfo)
      rw [Function.update_of_ne hqo, Function.update_of_ne hqp,
        Equiv.swap_apply_of_ne_of_ne hqp hqo]
  · cases ht

/-- **`Socket::operator=`** swaps the two descriptors. -/
theorem exclusive_assign (hn : Numbered s) (h : Exclusive s)
    (ht : step (.assign o p) s = some t) : Numbered t ∧ Exclusive t := by
  rw [step] at ht
  split at ht
  · rename_i f g hfo hfp
    split at ht
    · exact Option.some.inj ht ▸ ⟨hn, h⟩
    obtain rfl := Option.some.inj ht
    refine ⟨hn.congr rfl rfl rfl, h.permute (Equiv.swap o p) (descriptor_swap rfl ?_ ?_)
      (fun q _ => ?_) (fun _ _ _ => rfl) (fun _ _ hm hmem => ⟨hm, hmem⟩) rfl⟩
    · rw [descriptor, hfp]
      rfl
    · rw [descriptor, hfo]
      rfl
    · rw [Equiv.swap_comm o p]
      exact (congrFun (Equiv.comp_swap_eq_update p o s.given) q).symm
  · cases ht

/-- **`Close`** gives back what the object owns, and forgets it. -/
theorem Exclusive.close_ok {f : File} (h : Exclusive s) (hf : s.file o = some f)
    (hvalid : f.Valid) :
    (s.Close o f true).1 = { s with
      file := update s.file o (some { f with fd_ := File.INVALID_FD })
      table := update s.table f.fd_ none
      given := update s.given o none
      closes := s.closes ++ [(s.given o, s.table f.fd_)] } := by
  obtain ⟨n, hn, -⟩ := h.own o f.fd_ (descriptor_some hf hvalid)
  have hsome : (s.table f.fd_).isSome = true := by rw [hn, Option.isSome_some]
  rw [Close, if_pos hvalid, hsome, Bool.true_and, if_pos rfl]

/-- If there is an error, the object keeps the number. -/
theorem close_error {f : File} (hvalid : f.Valid) :
    (s.Close o f false).1 = { s with
      table := update s.table f.fd_ none
      closes := s.closes ++ [(s.given o, s.table f.fd_)] } := by
  rw [Close, if_pos hvalid, Bool.and_false, if_neg Bool.false_ne_true]

theorem close_invalid {f : File} (hvalid : ¬ f.Valid) (ok : Bool) : (s.Close o f ok).1 = s := by
  rw [Close, if_neg hvalid]

/-- **A failed `Close`** leaves the object with a descriptor that is not its own any more. -/
theorem exclusive_close_iff {ok : Bool} (hn : Numbered s) (h : Exclusive s)
    (ht : step (.close o ok) s = some t) :
    Numbered t ∧ (Exclusive t ↔ Proper (.close o ok) s) := by
  rw [step] at ht
  obtain ⟨f, hf, rfl⟩ := Option.map_eq_some_iff.mp ht
  rw [Proper]
  by_cases hvalid : f.Valid
  · have ho := descriptor_some hf hvalid
    cases ok with
    | true =>
      rw [h.close_ok hf hvalid]
      refine ⟨hn.close f.fd_ rfl rfl rfl, iff_of_true ?_ fun _ => rfl⟩
      refine h.release ho ?_ (fun q hq => Function.update_of_ne hq _ _) rfl rfl rfl
      rw [descriptor_update rfl]
      exact congrArg (update s.descriptor o)
        (File.descriptor_of_not_valid (File.not_valid_mk f.flags_))
    | false =>
      rw [close_error hvalid]
      refine ⟨hn.close f.fd_ rfl rfl rfl, iff_of_false (fun hex => ?_) fun hok => ?_⟩
      · obtain ⟨n, hsome, -⟩ := hex.own o f.fd_ ho
        cases (Function.update_self f.fd_ none s.table).symm.trans hsome
      · cases hok (by rw [ho]; exact Option.some_ne_none _)
  · rw [close_invalid hvalid]
    refine ⟨hn, iff_of_true h fun hsome => ?_⟩
    exact absurd (descriptor_invalid hf hvalid) hsome

/-- **`~File`** gives the descriptor back, whatever `Close` reports. -/
theorem exclusive_destroy {ok : Bool} (hn : Numbered s) (h : Exclusive s)
    (ht : step (.destroy o ok) s = some t) : Numbered t ∧ Exclusive t := by
  rw [step] at ht
  obtain ⟨f, hf, rfl⟩ := Option.map_eq_some_iff.mp ht
  by_cases hvalid : f.Valid
  · have ho := descriptor_some hf hvalid
    cases ok with
    | true =>
      rw [h.close_ok hf hvalid]
      refine ⟨hn.close f.fd_ rfl rfl rfl, h.release ho ?_ (fun q hq => ?_) rfl rfl rfl⟩
      · exact descriptor_update (f := none) (Function.update_idem _ _ _)
      · exact (Function.update_of_ne hq _ _).trans (Function.update_of_ne hq _ _)
    | false =>
      rw [close_error hvalid]
      refine ⟨hn.close f.fd_ rfl rfl rfl, h.release ho ?_ (fun q hq => ?_) rfl rfl rfl⟩
      · exact descriptor_update (f := none) rfl
      · exact Function.update_of_ne hq _ _
  · rw [close_invalid hvalid]
    exact ⟨hn.congr rfl rfl rfl, h.blank rfl (descriptor_invalid hf hvalid) none⟩

/-- What other code opens is no object's. -/
theorem exclusive_foreignOpen (hn : Numbered s) (h : Exclusive s)
    (ht : step (.foreignOpen fd) s = some t) : Numbered t ∧ Exclusive t := by
  rw [step] at ht
  split at ht
  · rename_i hunused
    obtain ⟨hpos, hnone⟩ := unused_iff.mp hunused
    obtain rfl := Option.some.inj ht
    refine ⟨hn.open hpos rfl rfl fun n hmem => .inl hmem, ?_⟩
    refine h.congr rfl (fun _ _ => rfl) (fun q fd' hq => ?_) (fun fd' n hm hmem => ?_) rfl
    · refine Function.update_of_ne ?_ _ _
      rintro rfl
      exact h.ne_of_unused hnone q hq
    · by_cases hne : fd' = fd
      · subst hne
        cases (Function.update_self fd' (some s.opened) s.table).symm.trans hm
        exact absurd (hn.taken _ hmem) (Nat.lt_irrefl _)
      · exact ⟨(Function.update_of_ne hne _ _).symm.trans hm, hmem⟩
  · cases ht

/-- **Other code closes** a descriptor: it must not be an object's. -/
theorem exclusive_foreignClose_iff (hn : Numbered s) (h : Exclusive s)
    (ht : step (.foreignClose fd) s = some t) :
    Numbered t ∧ (Exclusive t ↔ Proper (.foreignClose fd) s) := by
  rw [step] at ht
  obtain rfl := Option.some.inj ht
  refine ⟨hn.close fd rfl rfl rfl, ?_⟩
  rw [Proper]
  constructor
  · intro hex q hq
    obtain ⟨n, hsome, -⟩ := hex.own q fd hq
    cases (Function.update_self fd none s.table).symm.trans hsome
  · intro hfree
    refine h.congr rfl (fun _ _ => rfl) (fun q fd' hq => ?_) (fun fd' n hm hmem => ?_) rfl
    · refine Function.update_of_ne ?_ _ _
      rintro rfl
      exact hfree q hq
    · by_cases hne : fd' = fd
      · subst hne
        cases (Function.update_self fd' none s.table).symm.trans hm
      · exact ⟨(Function.update_of_ne hne _ _).symm.trans hm, hmem⟩

/-- Whether a step leaves each descriptor with its owner. -/
theorem exclusive_step_iff {l : FileLabel O} (hn : Numbered s) (h : Exclusive s)
    (ht : step l s = some t) : Numbered t ∧ (Exclusive t ↔ Proper l s) := by
  cases l with
  | «open» o fd flags => exact (exclusive_open hn h ht).imp_right fun hex => iff_of_true hex trivial
  | «from» o fd => exact exclusive_from_iff hn h ht
  | move o p => exact (exclusive_move hn h ht).imp_right fun hex => iff_of_true hex trivial
  | assign o p => exact (exclusive_assign hn h ht).imp_right fun hex => iff_of_true hex trivial
  | close o ok => exact exclusive_close_iff hn h ht
  | destroy o ok => exact (exclusive_destroy hn h ht).imp_right fun hex => iff_of_true hex trivial
  | foreignOpen fd =>
    exact (exclusive_foreignOpen hn h ht).imp_right fun hex => iff_of_true hex trivial
  | foreignClose fd => exact exclusive_foreignClose_iff hn h ht

/-- **One owner for each descriptor**: along a run, every object's descriptor is open and its own,
none is shared or leaked, and objects close nothing but their own, if and only if `From` is given
open descriptors that no object has, `Close` does not fail, and other code closes no object's
descriptor. -/
theorem exclusive_iff (ls : List (FileLabel O)) :
    (files O).AllStates Exclusive ls start ↔ (files O).AllSteps Proper ls start :=
  System.allStates_iff_allSteps (I := Numbered)
    (fun _ _ _ hn h ht _ => (exclusive_step_iff hn h ht).1)
    (fun _ _ _ hn h ht => (exclusive_step_iff hn h ht).2) ls numbered_start exclusive_start

-- what `~Job` leads to: the descriptor has been handed out again when its first owner closes it
example : ((files Bool).run
    [.open true 5 0, .foreignClose 5, .open false 5 0, .destroy true true] start).map (·.closes) =
    some [(some 0, some 1)] := rfl

end Files

end Lizlib
