import Lizlib.Concurrent.Equiv.LockFreeQueue

/-!
# Who can hold up whom

No call waits for a lock, and yet some wait: a `Push` that finds `tail_` null and `head_` set, and a
`Pop` that finds no link behind the first of several nodes, go round their loops until another thread
has made its next store.  These are the only cases: a call that is left alone returns, unless another
one stands between the two stores that belong together (`push_returns_iff`, `pop_returns_iff`).
-/

namespace Lizlib

namespace QueueMem

variable {A E : Type*}

/-- A `Push` finds a place for its node. -/
def Pushable (m : QueueMem A E) : Prop := m.tail_ = none → m.head_ = none

/-- A `Pop` finds that the queue is empty, or that it has one node, or the node after the first. -/
def Poppable (m : QueueMem A E) : Prop :=
  m.tail_ = none ∨ m.tail_ = m.head_ ∨ m.head_.bind m.next ≠ none

variable [DecidableEq A]

/-- A bound on the steps a `Push` has yet to make when it is left alone. -/
def pushRank (m : QueueMem A E) : PushPc A → Nat
  | .idle => 0
  | .storeNext _ _ | .onEmpty => 1
  | .storeTail _ => 2
  | .casHead _ => if m.head_ = none then 3 else 5
  | .casTail _ tail_read => if m.tail_ = some tail_read then 3 else 5
  | .loadTail _ => 4

/-- **One step of `Push`** brings it closer to its return, or has linked the node in. -/
theorem pushRank_pushStep {m m' : QueueMem A E} {pc pc' : PushPc A}
    (h : m.pushStep pc = some (m', pc')) (hpc : pc ≠ .idle) (hm : pc.linked = true ∨ m.Pushable) :
    (pc' = .idle ∨ pc'.linked = true ∨ m'.Pushable) ∧ m'.pushRank pc' < m.pushRank pc := by
  cases pc with
  | idle => exact absurd rfl hpc
  | loadTail node =>
    replace hm : m.Pushable := hm.resolve_left (by simp [PushPc.linked])
    cases ht : m.tail_ with
    | none =>
      simp only [pushStep, ht, Option.some.injEq, Prod.mk.injEq] at h
      obtain ⟨rfl, rfl⟩ := h
      refine ⟨.inr (.inr hm), ?_⟩
      show (if m.head_ = none then 3 else 5) < 4
      rw [if_pos (hm ht)]
      omega
    | some t =>
      simp only [pushStep, ht, Option.some.injEq, Prod.mk.injEq] at h
      obtain ⟨rfl, rfl⟩ := h
      refine ⟨.inr (.inr hm), ?_⟩
      show (if m.tail_ = some t then 3 else 5) < 4
      rw [if_pos ht]
      omega
  | casHead node =>
    replace hm : m.Pushable := hm.resolve_left (by simp [PushPc.linked])
    by_cases hhead : m.head_ = none
    · simp only [pushStep, if_pos hhead, Option.some.injEq, Prod.mk.injEq] at h
      obtain ⟨rfl, rfl⟩ := h
      refine ⟨.inr (.inl rfl), ?_⟩
      show 2 < if m.head_ = none then 3 else 5
      rw [if_pos hhead]
      omega
    · simp only [pushStep, if_neg hhead, Option.some.injEq, Prod.mk.injEq] at h
      obtain ⟨rfl, rfl⟩ := h
      refine ⟨.inr (.inr hm), ?_⟩
      show 4 < if m.head_ = none then 3 else 5
      rw [if_neg hhead]
      omega
  | casTail node t =>
    replace hm : m.Pushable := hm.resolve_left (by simp [PushPc.linked])
    by_cases htail : m.tail_ = some t
    · simp only [pushStep, if_pos htail, Option.some.injEq, Prod.mk.injEq] at h
      obtain ⟨rfl, rfl⟩ := h
      refine ⟨.inr (.inl rfl), ?_⟩
      show 1 < if m.tail_ = some t then 3 else 5
      rw [if_pos htail]
      omega
    · simp only [pushStep, if_neg htail, Option.some.injEq, Prod.mk.injEq] at h
      obtain ⟨rfl, rfl⟩ := h
      refine ⟨.inr (.inr hm), ?_⟩
      show 4 < if m.tail_ = some t then 3 else 5
      rw [if_neg htail]
      omega
  | storeTail node =>
    obtain ⟨rfl, rfl⟩ := Prod.mk.inj (Option.some.inj h)
    exact ⟨.inr (.inl rfl), Nat.lt_succ_self 1⟩
  | onEmpty =>
    obtain ⟨rfl, rfl⟩ := Prod.mk.inj (Option.some.inj h)
    exact ⟨.inl rfl, Nat.lt_succ_self 0⟩
  | storeNext node t =>
    cases hn : m.heap t with
    | none => simp [pushStep, hn] at h
    | some n =>
      simp only [pushStep, hn, Option.some.injEq, Prod.mk.injEq] at h
      obtain ⟨rfl, rfl⟩ := h
      exact ⟨.inl rfl, Nat.lt_succ_self 0⟩

/-- A `Push` that finds no place goes round its loop. -/
theorem pushStep_of_not_pushable {m m' : QueueMem A E} {pc pc' : PushPc A} {n : A}
    (hm : ¬ m.Pushable) (hown : pc.own = some n) (h : m.pushStep pc = some (m', pc')) :
    m' = m ∧ pc'.own = some n := by
  unfold Pushable at hm
  push Not at hm
  obtain ⟨htail, hhead⟩ := hm
  cases pc with
  | loadTail node =>
    simp only [pushStep, htail, Option.some.injEq, Prod.mk.injEq] at h
    obtain ⟨rfl, rfl⟩ := h
    exact ⟨rfl, hown⟩
  | casHead node =>
    simp only [pushStep, if_neg hhead, Option.some.injEq, Prod.mk.injEq] at h
    obtain ⟨rfl, rfl⟩ := h
    exact ⟨rfl, hown⟩
  | casTail node t =>
    simp only [pushStep, htail, reduceCtorEq, if_false, Option.some.injEq, Prod.mk.injEq] at h
    obtain ⟨rfl, rfl⟩ := h
    exact ⟨rfl, hown⟩
  | idle | storeTail _ | onEmpty | storeNext _ _ => cases hown

/-- A bound on the steps a `Pop` has yet to make when it is left alone. -/
def popRank (m : QueueMem A E) : PopPc A → Nat
  | .idle => 0
  | .take _ => 1
  | .storeHead _ | .casHead _ _ => 2
  | .casTail head_read => if m.tail_ = some head_read then 3 else 4
  | .loadNext head_read => if head_read.bind m.next = none then 7 else 3
  | .loadHead tail_read => if m.head_ = some tail_read ∨ m.head_.bind m.next ≠ none then 5 else 8
  | .loadTail => 6

end QueueMem

namespace LockFreeQueue

variable {P A E : Type*}

section Push

variable {s : LockFreeQueue P Unit A E}

/-- A node is linked in and `tail_` not stored yet, or unlinked and `head_` not stored yet. -/
theorem Inv.pushable_iff [DecidableEq P] (h : Inv s) : s.mem.Pushable ↔
    (∀ q n, s.push q ≠ .storeTail n) ∧ ∀ n, s.pop () ≠ .storeHead n := by
  constructor
  · refine fun hm => ⟨fun q n hq => ?_, fun n hn => ?_⟩
    · obtain ⟨htail, x, hchain⟩ := h.shape.storeTail q n hq
      have hhead := h.shape.head_cons ⟨n, q, x⟩ (by rw [hchain]; rfl)
      rw [hm htail] at hhead
      cases hhead
    · have hnil := h.shape.storeHead n hn
      have hhead := (h.shape.head_nil hnil n).mpr hn
      rw [hm (h.shape.tail_eq_none hnil)] at hhead
      cases hhead
  · rintro ⟨hpush, hpop⟩ htail
    rcases h.shape.tail_none htail with hnil | ⟨c, -, hc⟩
    · cases hhead : s.mem.head_ with
      | none => rfl
      | some n => exact absurd ((h.shape.head_nil hnil n).mp hhead) (hpop n)
    · exact absurd hc (hpush c.producer c.node)

variable [DecidableEq P] [DecidableEq A]

/-- What the step of a producer does to the memory and to its own position. -/
theorem Inv.pushStep_spec (h : Inv s) {p : P} (hp : s.push p ≠ .idle) :
    ∃ m pc, s.mem.pushStep (s.push p) = some (m, pc) ∧ (s.pushStep p).mem = m ∧
      (s.pushStep p).push p = pc := by
  have hfault := (h.pushStep hp).no_fault
  unfold LockFreeQueue.pushStep at hfault ⊢
  cases hstep : s.mem.pushStep (s.push p) with
  | none => simp [hstep] at hfault
  | some r => exact ⟨r.1, r.2, rfl, rfl, Function.update_self ..⟩

end Push

section Returns

variable [DecidableEq P] [DecidableEq A] {s : LockFreeQueue P Unit A E}

theorem inv_of_reachable (hs : (lockFreeQueue P Unit A E).Reachable s) : Inv s := by
  refine System.Reach.invariant (I := Inv) ?_ (fun _ _ _ h _ ht => inv_step h ht) hs
  rintro t rfl
  exact inv_start

theorem step_push {p : P} (hp : s.push p ≠ .idle) :
    (lockFreeQueue P Unit A E).step (.push p) s = some (s.pushStep p) :=
  if_neg hp

/-- **When `Push` returns**: left alone, a `Push` returns exactly if it has linked its node in, or
nobody stands between linking the first node and storing `tail_`, and the consumer does not stand
between clearing `tail_` and clearing `head_`. -/
theorem push_returns_iff (hs : (lockFreeQueue P Unit A E).Reachable s) {p : P}
    (hp : s.push p ≠ .idle) :
    (lockFreeQueue P Unit A E).Leads (fun l => l = .push p) (fun t => t.push p = .idle) s ↔
      (s.push p).linked = true ∨
        (∀ q n, s.push q ≠ .storeTail n) ∧ ∀ n, s.pop () ≠ .storeHead n := by
  have hinv := inv_of_reachable hs
  rw [← hinv.pushable_iff]
  constructor
  · intro hleads
    by_contra hnot
    push Not at hnot
    obtain ⟨hlinked, hm⟩ := hnot
    have hown : (s.push p).own.isSome = true := by
      cases hpc : s.push p <;> simp_all [PushPc.own, PushPc.linked]
    refine System.not_leads
      (I := fun t => Inv t ∧ ¬ t.mem.Pushable ∧ (t.push p).own.isSome = true) ?_ ?_
      ⟨hinv, hm, hown⟩ hleads
    · rintro l t u ⟨ht, hm, hown⟩ rfl hu
      have hne : t.push p ≠ .idle := fun hidle => by simp [hidle, PushPc.own] at hown
      obtain rfl : t.pushStep p = u := Option.some.inj ((step_push hne).symm.trans hu)
      obtain ⟨m, pc, hstep, hmem, hpush⟩ := ht.pushStep_spec hne
      obtain ⟨n, hn⟩ := Option.isSome_iff_exists.mp hown
      obtain ⟨rfl, hown'⟩ := QueueMem.pushStep_of_not_pushable hm hn hstep
      refine ⟨ht.pushStep hne, hmem ▸ hm, ?_⟩
      rw [hpush, hown']
      rfl
    · rintro t ⟨-, -, hown⟩ hidle
      simp [hidle, PushPc.own] at hown
  · intro hm
    refine System.leads_of_rank (I := fun t => Inv t ∧
        (t.push p = .idle ∨ (t.push p).linked = true ∨ t.mem.Pushable))
      (fun t => t.mem.pushRank (t.push p)) (fun t ht => ?_) ⟨hinv, .inr hm⟩
    obtain ⟨ht, hidle | hm⟩ := ht
    · exact .inl hidle
    · by_cases hidle : t.push p = .idle
      · exact .inl hidle
      · obtain ⟨m, pc, hstep, hmem, hpush⟩ := ht.pushStep_spec hidle
        obtain ⟨hkeep, hlt⟩ := QueueMem.pushRank_pushStep hstep hidle hm
        refine .inr ⟨.push p, t.pushStep p, rfl, step_push hidle, ⟨ht.pushStep hidle, ?_⟩, ?_⟩
        · rw [hmem, hpush]
          exact hkeep
        · rw [hmem, hpush]
          exact hlt

/-- A producer has linked the first node in and not stored `tail_` yet; another one comes. -/
def storePending : List (QueueLabel Bool Unit Nat Unit) :=
  [.callPush false () 0, .push false, .push false, .callPush true () 1]

theorem push_returns_iff_storePending : ∃ s, (lockFreeQueue Bool Unit Nat Unit).Reachable s ∧
    s.push true = .loadTail 1 ∧
    ((lockFreeQueue Bool Unit Nat Unit).Leads (fun l => l = .push true)
        (fun t => t.push true = .idle) s ↔
      (s.push true).linked = true ∨
        (∀ q n, s.push q ≠ .storeTail n) ∧ ∀ n, s.pop () ≠ .storeHead n) := by
  have hrun : ((lockFreeQueue Bool Unit Nat Unit).run storePending start).isSome = true := by
    decide
  have hs := System.reachable_of_run rfl (Option.some_get hrun).symm
  refine ⟨_, hs, rfl, push_returns_iff hs ?_⟩
  show PushPc.loadTail 1 ≠ .idle
  decide

/-! ### `Pop` -/

omit [DecidableEq A] in
/-- A node stands first, others come after it, and the link to them is missing. -/
theorem Inv.poppable_iff (h : Inv s) :
    s.mem.Poppable ↔ ∀ p n t, s.push p = .storeNext n t → s.mem.head_ ≠ some t := by
  constructor
  · intro hm p n t hp hhead
    obtain ⟨hnext, c, d, hcd, rfl, -⟩ := h.shape.storeNext p n t hp
    rcases hm with htail | htail | hlink
    · rcases h.shape.tail_none htail with hnil | ⟨c', hc', -⟩
      · exact List.not_adjacent_nil (hnil ▸ hcd)
      · exact List.not_adjacent_singleton (hc' ▸ hcd)
    · obtain ⟨c', hlast, hnode⟩ := h.shape.tail_some c.node (htail.trans hhead)
      have hnodup : s.chain.Nodup := List.Nodup.of_map _ h.owner.chain_nodup
      obtain rfl : c' = c :=
        h.owner.node_inj (List.mem_of_getLast? hlast) hcd.left_mem hnode
      exact hcd.ne_last hnodup hlast
    · rw [hhead] at hlink
      exact hlink hnext
  · intro hpush
    unfold QueueMem.Poppable
    by_contra hnot
    push Not at hnot
    obtain ⟨htail, hne, hlink⟩ := hnot
    obtain ⟨c, l, hchain, hhead⟩ := h.shape.exists_head htail
    cases l with
    | nil =>
      obtain ⟨t, ht⟩ := Option.ne_none_iff_exists'.mp htail
      obtain ⟨c', hlast, rfl⟩ := h.shape.tail_some t ht
      rw [hchain, List.getLast?_singleton] at hlast
      obtain rfl := Option.some.inj hlast
      exact hne (ht.trans hhead.symm)
    | cons d l =>
      have hcd : s.chain.Adjacent c d := by
        rw [hchain, List.adjacent_cons_iff]
        exact .inl ⟨rfl, rfl⟩
      rw [hhead] at hlink
      rcases h.shape.links c d hcd with hnext | ⟨-, hp⟩
      · rw [Option.bind_some, hnext] at hlink
        cases hlink
      · exact hpush d.producer d.node c.node hp hhead

/-- What the step of the consumer does to the memory and to its own position. -/
theorem Inv.popStep_spec (h : Inv s) (hp : s.pop () ≠ .idle) :
    ∃ m pc r, s.mem.popStep (s.pop ()) = some (m, pc, r) ∧ (s.popStep ()).mem = m ∧
      (s.popStep ()).pop () = pc := by
  have hfault := (h.popStep hp).no_fault
  unfold LockFreeQueue.popStep at hfault ⊢
  cases hstep : s.mem.popStep (s.pop ()) with
  | none => simp [hstep] at hfault
  | some r =>
    refine ⟨r.1, r.2.1, r.2.2, rfl, rfl, ?_⟩
    show Function.update s.pop () r.2.1 () = r.2.1
    rw [Function.update_self]

omit [DecidableEq A] in
/-- While `Pop` reads, `tail_` is set: the node at `head_` is there. -/
theorem Inv.next_head (h : Inv s) (htail : s.mem.tail_ ≠ none) : ∃ a nd,
    s.mem.head_ = some a ∧ s.mem.heap a = some nd ∧ s.mem.next a = nd.next_ := by
  obtain ⟨c, l, hchain, hhead⟩ := h.shape.exists_head htail
  obtain ⟨next, hnode⟩ := h.owner.chain_live c (by simp [hchain])
  refine ⟨c.node, ⟨next, c.element⟩, hhead, hnode, ?_⟩
  unfold QueueMem.next
  rw [hnode]
  rfl

/-- **One step of `Pop`** brings it closer to its return. -/
theorem Inv.popRank_popStep (h : Inv s) {m : QueueMem A E} {pc : PopPc A} {r : Option (Option E)}
    (hpc : s.pop () ≠ .idle) (hm : (s.pop ()).hand ≠ none ∨ s.mem.Poppable)
    (hstep : s.mem.popStep (s.pop ()) = some (m, pc, r)) :
    (pc = .idle ∨ pc.hand ≠ none ∨ m.Poppable) ∧ m.popRank pc < s.mem.popRank (s.pop ()) := by
  have hreads := h.shape.reads
  cases hp : s.pop () with
  | idle => exact absurd hp hpc
  | loadTail =>
    rw [hp] at hm hstep
    replace hm : s.mem.Poppable := hm.resolve_left fun hhand => hhand rfl
    cases ht : s.mem.tail_ with
    | none =>
      simp only [QueueMem.popStep, ht, Option.some.injEq, Prod.mk.injEq] at hstep
      obtain ⟨rfl, rfl, -⟩ := hstep
      exact ⟨.inl rfl, Nat.succ_pos 5⟩
    | some t =>
      simp only [QueueMem.popStep, ht, Option.some.injEq, Prod.mk.injEq] at hstep
      obtain ⟨rfl, rfl, -⟩ := hstep
      refine ⟨.inr (.inr hm), ?_⟩
      have hfound : s.mem.head_ = some t ∨ s.mem.head_.bind s.mem.next ≠ none :=
        (hm.resolve_left (by simp [ht])).imp_left fun heq => heq.symm.trans ht
      show (if s.mem.head_ = some t ∨ s.mem.head_.bind s.mem.next ≠ none then 5 else 8) < 6
      rw [if_pos hfound]
      omega
  | loadHead t =>
    rw [hp] at hm hstep
    replace hm : s.mem.Poppable := hm.resolve_left fun hhand => hhand rfl
    by_cases hhead : s.mem.head_ = some t
    · simp only [QueueMem.popStep, if_pos hhead, Option.some.injEq, Prod.mk.injEq] at hstep
      obtain ⟨rfl, rfl, -⟩ := hstep
      refine ⟨.inr (.inr hm), ?_⟩
      have hfound : s.mem.head_ = some t ∨ s.mem.head_.bind s.mem.next ≠ none := .inl hhead
      show (if s.mem.tail_ = some t then 3 else 4) <
        if s.mem.head_ = some t ∨ s.mem.head_.bind s.mem.next ≠ none then 5 else 8
      rw [if_pos hfound]
      split_ifs <;> omega
    · simp only [QueueMem.popStep, if_neg hhead, Option.some.injEq, Prod.mk.injEq] at hstep
      obtain ⟨rfl, rfl, -⟩ := hstep
      refine ⟨.inr (.inr hm), ?_⟩
      show (if s.mem.head_.bind s.mem.next = none then 7 else 3) <
        if s.mem.head_ = some t ∨ s.mem.head_.bind s.mem.next ≠ none then 5 else 8
      by_cases hlink : s.mem.head_.bind s.mem.next = none
      · rw [if_pos hlink, if_neg (not_or.mpr ⟨hhead, not_not.mpr hlink⟩)]
        omega
      · rw [if_neg hlink, if_pos (.inr hlink)]
        omega
  | casTail a =>
    rw [hp] at hm hstep hreads
    replace hm : s.mem.Poppable := hm.resolve_left fun hhand => hhand rfl
    by_cases ht : s.mem.tail_ = some a
    · simp only [QueueMem.popStep, if_pos ht, Option.some.injEq, Prod.mk.injEq] at hstep
      obtain ⟨rfl, rfl, -⟩ := hstep
      refine ⟨.inr (.inl (by simp [PopPc.hand])), ?_⟩
      show 2 < if s.mem.tail_ = some a then 3 else 4
      rw [if_pos ht]
      omega
    · simp only [QueueMem.popStep, if_neg ht, Option.some.injEq, Prod.mk.injEq] at hstep
      obtain ⟨rfl, rfl, -⟩ := hstep
      refine ⟨.inr (.inr hm), ?_⟩
      -- another node has come, and the link to it is there
      have hlink : (some a).bind s.mem.next ≠ none := by
        rcases hm with hnone | heq | hlink
        · exact absurd hnone hreads.1
        · exact absurd (heq.trans hreads.2) ht
        · rwa [hreads.2] at hlink
      show (if (some a).bind s.mem.next = none then 7 else 3) < if s.mem.tail_ = some a then 3 else 4
      rw [if_neg hlink, if_neg ht]
      omega
  | storeHead a =>
    rw [hp] at hstep
    simp only [QueueMem.popStep, Option.some.injEq, Prod.mk.injEq] at hstep
    obtain ⟨rfl, rfl, -⟩ := hstep
    exact ⟨.inr (.inl (by simp [PopPc.hand])), Nat.lt_succ_self 1⟩
  | loadNext o =>
    rw [hp] at hm hstep hreads
    replace hm : s.mem.Poppable := hm.resolve_left fun hhand => hhand rfl
    obtain ⟨a, nd, hhead, hnode, hnext⟩ := h.next_head hreads.1
    obtain rfl : o = some a := hreads.2.symm.trans hhead
    cases hn : nd.next_ with
    | none =>
      simp only [QueueMem.popStep, hnode, hn, Option.some.injEq, Prod.mk.injEq] at hstep
      obtain ⟨rfl, rfl, -⟩ := hstep
      refine ⟨.inr (.inr hm), ?_⟩
      show 6 < if s.mem.next a = none then 7 else 3
      rw [if_pos (hnext.trans hn)]
      omega
    | some b =>
      simp only [QueueMem.popStep, hnode, hn, Option.some.injEq, Prod.mk.injEq] at hstep
      obtain ⟨rfl, rfl, -⟩ := hstep
      refine ⟨.inr (.inr hm), ?_⟩
      show 2 < if s.mem.next a = none then 7 else 3
      split_ifs <;> omega
  | casHead a b =>
    rw [hp] at hstep hreads
    simp only [QueueMem.popStep, if_pos hreads.2.1, Option.some.injEq, Prod.mk.injEq] at hstep
    obtain ⟨rfl, rfl, -⟩ := hstep
    exact ⟨.inr (.inl (by simp [PopPc.hand])), Nat.lt_succ_self 1⟩
  | take a =>
    rw [hp] at hstep
    cases hn : s.mem.heap a with
    | none => simp [QueueMem.popStep, hn] at hstep
    | some nd =>
      simp only [QueueMem.popStep, hn, Option.some.injEq, Prod.mk.injEq] at hstep
      obtain ⟨rfl, rfl, -⟩ := hstep
      exact ⟨.inl rfl, Nat.lt_succ_self 0⟩

/-- A `Pop` that finds no link goes round its loop. -/
theorem Inv.popStep_of_not_poppable (h : Inv s) {m : QueueMem A E} {pc : PopPc A}
    {r : Option (Option E)} (hpc : s.pop () ≠ .idle) (hhand : (s.pop ()).hand = none)
    (hm : ¬ s.mem.Poppable) (hstep : s.mem.popStep (s.pop ()) = some (m, pc, r)) :
    m = s.mem ∧ pc ≠ .idle ∧ pc.hand = none := by
  have hreads := h.shape.reads
  unfold QueueMem.Poppable at hm
  push Not at hm
  obtain ⟨htail, hne, hlink⟩ := hm
  cases hp : s.pop () with
  | idle => exact absurd hp hpc
  | loadTail =>
    obtain ⟨t, ht⟩ := Option.ne_none_iff_exists'.mp htail
    rw [hp] at hstep
    simp only [QueueMem.popStep, ht, Option.some.injEq, Prod.mk.injEq] at hstep
    obtain ⟨rfl, rfl, -⟩ := hstep
    exact ⟨rfl, by simp, rfl⟩
  | loadHead t =>
    rw [hp] at hstep
    by_cases hhead : s.mem.head_ = some t
    · simp only [QueueMem.popStep, if_pos hhead, Option.some.injEq, Prod.mk.injEq] at hstep
      obtain ⟨rfl, rfl, -⟩ := hstep
      exact ⟨rfl, by simp, rfl⟩
    · simp only [QueueMem.popStep, if_neg hhead, Option.some.injEq, Prod.mk.injEq] at hstep
      obtain ⟨rfl, rfl, -⟩ := hstep
      exact ⟨rfl, by simp, rfl⟩
  | casTail a =>
    rw [hp] at hstep hreads
    have ht : s.mem.tail_ ≠ some a := fun ht => hne (ht.trans hreads.2.symm)
    simp only [QueueMem.popStep, if_neg ht, Option.some.injEq, Prod.mk.injEq] at hstep
    obtain ⟨rfl, rfl, -⟩ := hstep
    exact ⟨rfl, by simp, rfl⟩
  | loadNext o =>
    rw [hp] at hstep hreads
    obtain ⟨a, nd, hhead, hnode, hnext⟩ := h.next_head hreads.1
    obtain rfl : o = some a := hreads.2.symm.trans hhead
    rw [hhead, Option.bind_some, hnext] at hlink
    simp only [QueueMem.popStep, hnode, hlink, Option.some.injEq, Prod.mk.injEq] at hstep
    obtain ⟨rfl, rfl, -⟩ := hstep
    exact ⟨rfl, by simp, rfl⟩
  | casHead a b =>
    rw [hp] at hreads
    rw [hreads.2.1, Option.bind_some, hreads.2.2] at hlink
    cases hlink
  | storeHead a | take a =>
    rw [hp] at hhand
    cases hhand

theorem step_pop (hp : s.pop () ≠ .idle) :
    (lockFreeQueue P Unit A E).step (.pop ()) s = some (s.popStep ()) :=
  if_neg hp

/-- **When `Pop` returns**: left alone, the consumer's `Pop` returns exactly if it has unlinked a node,
or no producer stands between storing `tail_` and linking its node to the first one. -/
theorem pop_returns_iff (hs : (lockFreeQueue P Unit A E).Reachable s) (hp : s.pop () ≠ .idle) :
    (lockFreeQueue P Unit A E).Leads (fun l => l = .pop ()) (fun t => t.pop () = .idle) s ↔
      (s.pop ()).hand ≠ none ∨ ∀ p n t, s.push p = .storeNext n t → s.mem.head_ ≠ some t := by
  have hinv := inv_of_reachable hs
  rw [← hinv.poppable_iff]
  constructor
  · intro hleads
    by_contra hnot
    push Not at hnot
    obtain ⟨hhand, hm⟩ := hnot
    refine System.not_leads
      (I := fun t => Inv t ∧ ¬ t.mem.Poppable ∧ t.pop () ≠ .idle ∧ (t.pop ()).hand = none) ?_ ?_
      ⟨hinv, hm, hp, hhand⟩ hleads
    · rintro l t u ⟨ht, hm, hne, hhand⟩ rfl hu
      obtain rfl : t.popStep () = u := Option.some.inj ((step_pop hne).symm.trans hu)
      obtain ⟨m, pc, r, hstep, hmem, hpop⟩ := ht.popStep_spec hne
      obtain ⟨rfl, hidle, hhand'⟩ := ht.popStep_of_not_poppable hne hhand hm hstep
      exact ⟨ht.popStep hne, hmem ▸ hm, hpop ▸ hidle, hpop ▸ hhand'⟩
    · exact fun t ht hidle => ht.2.2.1 hidle
  · intro hm
    refine System.leads_of_rank (I := fun t => Inv t ∧
        (t.pop () = .idle ∨ (t.pop ()).hand ≠ none ∨ t.mem.Poppable))
      (fun t => t.mem.popRank (t.pop ())) (fun t ht => ?_) ⟨hinv, .inr hm⟩
    obtain ⟨ht, hidle | hm⟩ := ht
    · exact .inl hidle
    · by_cases hidle : t.pop () = .idle
      · exact .inl hidle
      · obtain ⟨m, pc, r, hstep, hmem, hpop⟩ := ht.popStep_spec hidle
        obtain ⟨hkeep, hlt⟩ := ht.popRank_popStep hidle hm hstep
        refine .inr ⟨.pop (), t.popStep (), rfl, step_pop hidle, ⟨ht.popStep hidle, ?_⟩, ?_⟩
        · rw [hmem, hpop]
          exact hkeep
        · rw [hmem, hpop]
          exact hlt

/-- A producer has stored `tail_` and not linked its node to the first one yet; the consumer comes. -/
def linkPending : List (QueueLabel Bool Unit Nat Unit) :=
  [.callPush false () 0, .push false, .push false, .push false, .push false, .callPush true () 1,
    .push true, .push true, .callPop ()]

theorem pop_returns_iff_linkPending : ∃ s, (lockFreeQueue Bool Unit Nat Unit).Reachable s ∧
    s.push true = .storeNext 1 0 ∧
    ((lockFreeQueue Bool Unit Nat Unit).Leads (fun l => l = .pop ()) (fun t => t.pop () = .idle) s ↔
      (s.pop ()).hand ≠ none ∨ ∀ p n t, s.push p = .storeNext n t → s.mem.head_ ≠ some t) := by
  have hrun : ((lockFreeQueue Bool Unit Nat Unit).run linkPending start).isSome = true := by
    decide
  have hs := System.reachable_of_run rfl (Option.some_get hrun).symm
  refine ⟨_, hs, rfl, pop_returns_iff hs ?_⟩
  show PopPc.loadTail ≠ (.idle : PopPc Nat)
  decide

end Returns

end LockFreeQueue

end Lizlib
