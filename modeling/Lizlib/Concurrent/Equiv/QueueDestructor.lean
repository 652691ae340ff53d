import Lizlib.Concurrent.Equiv.LockFreeQueue
import Lizlib.Data.LinkedList

/-!
# What becomes of the nodes

Every node that is allocated belongs to somebody (`Owned`), so once all calls have returned the nodes
left are those of the chain, and the destructor of the queue frees them all.  It does not destroy the
elements in them: those are the pushes that have not been popped (`destroyed`).
-/

namespace Lizlib

namespace QueueMem

variable {A E : Type*} [DecidableEq A]

/-- **The loop of the destructor** goes along the links. -/
theorem returns_destroyRound {l : List (A × Node A E)} {m : QueueMem A E}
    (h : IsLinked Node.next_ m.heap m.head_ l) (hnodup : (l.map Prod.fst).Nodup) (left : List E) :
    ∃ m', Returns destroyRound (m, left) (some (m', left ++ l.map fun x => x.2.element_)) ∧
      ∀ a, m'.heap a = if a ∈ l.map Prod.fst then none else m.heap a := by
  induction l generalizing m left with
  | nil =>
    replace h : m.head_ = none := h
    refine ⟨m, returns_of_leave ?_, fun a => rfl⟩
    unfold destroyRound
    rw [h, List.map_nil, List.append_nil]
  | cons x l ih =>
    obtain ⟨a, n⟩ := x
    obtain ⟨hhead, hnode, hrest⟩ := h
    obtain ⟨hnotin, hnodup⟩ := List.nodup_cons.mp hnodup
    set m₁ : QueueMem A E :=
      { m with head_ := n.next_, heap := Function.update m.heap a none } with hm₁
    have hround : destroyRound (m, left) = .inl (m₁, left ++ [n.element_]) := by
      unfold destroyRound
      dsimp only
      rw [hhead]
      dsimp only
      rw [hnode]
    obtain ⟨m', hreturns, hheap⟩ := ih (m := m₁) (hrest.update hnotin none) hnodup
      (left ++ [n.element_])
    refine ⟨m', returns_of_next hround ?_, fun b => ?_⟩
    · rw [List.append_assoc] at hreturns
      exact hreturns
    · rw [hheap b]
      by_cases hb : b = a
      · subst hb
        rw [if_neg hnotin, List.map_cons, if_pos List.mem_cons_self]
        exact Function.update_self ..
      · have hiff : b ∈ List.map Prod.fst ((a, n) :: l) ↔ b ∈ l.map Prod.fst := by
          simp [hb]
        have hsame : m₁.heap b = m.heap b := Function.update_of_ne hb ..
        rw [hsame]
        exact if_congr hiff.symm rfl rfl

end QueueMem

namespace LockFreeQueue

variable {P A E : Type*}

/-- Every node belongs to a producer, to the chain or to the consumer. -/
def Owned (s : LockFreeQueue P Unit A E) : Prop :=
  ∀ a, s.mem.heap a ≠ none →
    (∃ p, (s.push p).own = some a) ∨ a ∈ s.chain.map Linked.node ∨ (s.pop ()).hand = some a

/-- No call is in progress. -/
def Idle (s : LockFreeQueue P Unit A E) : Prop := (∀ p, s.push p = .idle) ∧ s.pop () = .idle

/-- **The chain** is a linked list that begins at `head_`. -/
theorem Inv.isLinked [DecidableEq P] {s : LockFreeQueue P Unit A E} (h : Inv s) (hidle : Idle s) :
    IsLinked Node.next_ s.mem.heap s.mem.head_
      (s.chain.map fun c => (c.node, (⟨s.mem.next c.node, c.element⟩ : Node A E))) := by
  have hhead : s.mem.head_ = s.chain.head?.map Linked.node := by
    cases hc : s.chain with
    | nil =>
      cases hm : s.mem.head_ with
      | none => rfl
      | some a =>
        have hpop := (h.shape.head_nil hc a).mp hm
        rw [hidle.2] at hpop
        cases hpop
    | cons c l => exact h.shape.head_cons c (by simp [hc])
  rw [hhead]
  refine isLinked_of_adjacent (fun c hc => ?_) (fun c d hcd => ?_) h.shape.last
  · obtain ⟨next, hnext⟩ := h.owner.chain_live c hc
    rw [hnext]
    simp [QueueMem.next, hnext]
  · refine (h.shape.links c d hcd).resolve_right fun hlink => ?_
    rw [hidle.1] at hlink
    cases hlink.2

section Steps

variable [DecidableEq P] [DecidableEq A] {s t : LockFreeQueue P Unit A E}

open Function (update)

omit [DecidableEq P] [DecidableEq A] in
/-- Steps that free no node and leave its owner. -/
theorem Owned.mono (h : Owned s) (hheap : ∀ a, t.mem.heap a ≠ none → s.mem.heap a ≠ none)
    (hown : ∀ p a, (s.push p).own = some a →
      (∃ q, (t.push q).own = some a) ∨ a ∈ t.chain.map Linked.node)
    (hchain : ∀ a ∈ s.chain.map Linked.node,
      a ∈ t.chain.map Linked.node ∨ (t.pop ()).hand = some a)
    (hhand : ∀ a, (s.pop ()).hand = some a → (t.pop ()).hand = some a) : Owned t := by
  intro a ha
  rcases h a (hheap a ha) with ⟨p, hp⟩ | hc | hh
  · exact (hown p a hp).imp_right .inl
  · exact .inr (hchain a hc)
  · exact .inr (.inr (hhand a hh))

theorem owned_callPush (hs : Owned s) {p : P} (hp : s.push p = .idle) (x : E) (a : A) :
    Owned { s with
      mem := { s.mem with heap := update s.mem.heap a (some ⟨none, x⟩) }
      push := update s.push p (.loadTail a)
      calls := update s.calls p (s.calls p ++ [x]) } := by
  intro b hb
  by_cases hba : b = a
  · refine .inl ⟨p, ?_⟩
    show (update s.push p (.loadTail a) p).own = some b
    rw [Function.update_self, hba]
    rfl
  · refine (hs b ?_).imp_left ?_
    · rintro hnone
      exact hb ((Function.update_of_ne hba ..).trans hnone)
    · rintro ⟨q, hq⟩
      have hqp : q ≠ p := by
        rintro rfl
        rw [hp] at hq
        cases hq
      exact ⟨q, by simpa [hqp] using hq⟩

theorem owned_pushStep (hs : Owned s) (h : Inv s) {p : P} (hp : s.push p ≠ .idle) :
    Owned (s.pushStep p) := by
  have hother : ∀ {pc : PushPc A} {q : P} {a : A}, (s.push p).own = pc.own →
      (s.push q).own = some a → ∃ r, (update s.push p pc r).own = some a := by
    intro pc q a heq hq
    refine ⟨q, ?_⟩
    by_cases hqp : q = p
    · subst hqp
      rw [Function.update_self, ← heq]
      exact hq
    · rwa [Function.update_of_ne hqp]
  -- the node goes from the producer to the chain
  have hlink : ∀ {pc : PushPc A} {n : A} {c : Linked P A E}, (s.push p).own = some n → c.node = n →
      ∀ q a, (s.push q).own = some a →
        (∃ r, (update s.push p pc r).own = some a) ∨ a ∈ (s.chain ++ [c]).map Linked.node := by
    intro pc n c hown hc q a hq
    by_cases hqp : q = p
    · subst hqp
      obtain rfl : n = a := Option.some.inj (hown.symm.trans hq)
      exact .inr (by simp [hc])
    · exact .inl ⟨q, by rwa [Function.update_of_ne hqp]⟩
  unfold pushStep
  cases hpc : s.push p with
  | idle => exact absurd hpc hp
  | loadTail n =>
    cases ht : s.mem.tail_ <;>
      simp only [QueueMem.pushStep, ht, link] <;>
      exact hs.mono (fun _ => id) (fun q a hq => .inl (hother (by rw [hpc]; rfl) hq))
        (fun _ => .inl) fun _ => id
  | casHead n =>
    have hown : (s.push p).own = some n := by rw [hpc]; rfl
    obtain ⟨x, hx⟩ := h.owner.own_live p n hown
    by_cases hhead : s.mem.head_ = none
    · simp only [QueueMem.pushStep, if_pos hhead, link, hx]
      exact hs.mono (fun _ => id) (hlink hown rfl)
        (fun a ha => .inl (by rw [List.map_append]; exact List.mem_append_left _ ha)) fun _ => id
    · simp only [QueueMem.pushStep, if_neg hhead, link]
      exact hs.mono (fun _ => id) (fun q a hq => .inl (hother (by rw [hpc]; rfl) hq))
        (fun _ => .inl) fun _ => id
  | casTail n t =>
    have hown : (s.push p).own = some n := by rw [hpc]; rfl
    obtain ⟨x, hx⟩ := h.owner.own_live p n hown
    by_cases ht : s.mem.tail_ = some t
    · simp only [QueueMem.pushStep, if_pos ht, link, hx]
      exact hs.mono (fun _ => id) (hlink hown rfl)
        (fun a ha => .inl (by rw [List.map_append]; exact List.mem_append_left _ ha)) fun _ => id
    · simp only [QueueMem.pushStep, if_neg ht, link]
      exact hs.mono (fun _ => id) (fun q a hq => .inl (hother (by rw [hpc]; rfl) hq))
        (fun _ => .inl) fun _ => id
  | storeTail n | onEmpty =>
    simp only [QueueMem.pushStep, link]
    exact hs.mono (fun _ => id) (fun q a hq => .inl (hother (by rw [hpc]; rfl) hq))
      (fun _ => .inl) fun _ => id
  | storeNext n t =>
    obtain ⟨-, c, d, hcd, rfl, -⟩ := h.shape.storeNext p n t hpc
    obtain ⟨next, hnext⟩ := h.owner.chain_live c hcd.left_mem
    simp only [QueueMem.pushStep, hnext, link]
    refine hs.mono (fun a ha => ?_) (fun q a hq => .inl (hother (by rw [hpc]; rfl) hq))
      (fun _ => .inl) fun _ => id
    by_cases hac : a = c.node
    · rw [hac, hnext]
      exact Option.some_ne_none _
    · rwa [← Function.update_of_ne hac (some _) s.mem.heap]

theorem owned_popStep (hs : Owned s) (h : Inv s) (hp : s.pop () ≠ .idle) :
    Owned (s.popStep ()) := by
  have hreads := h.shape.reads
  have hmove : ∀ pc : PopPc A, (s.pop ()).hand = pc.hand →
      Owned { s with pop := update s.pop () pc } := by
    intro pc hhand
    refine hs.mono (fun _ => id) (fun q a hq => .inl ⟨q, hq⟩) (fun _ => .inl) fun a ha => ?_
    show (update s.pop () pc ()).hand = some a
    rw [Function.update_self, ← hhand]
    exact ha
  -- the first node goes from the chain to the consumer
  have hunlink : ∀ {c : Linked P A E} {l : List (Linked P A E)} {pc : PopPc A},
      s.chain = c :: l → pc.hand = some c.node → (s.pop ()).hand = none →
      ∀ m : QueueMem A E, m.heap = s.mem.heap → ∀ popped,
        Owned { s with mem := m, pop := update s.pop () pc, chain := l, popped := popped } := by
    intro c l pc hchain hpc hnone m hm popped
    refine hs.mono (fun a ha => hm ▸ ha) (fun q a hq => .inl ⟨q, hq⟩) (fun a ha => ?_) fun a ha => ?_
    · rw [hchain, List.map_cons, List.mem_cons] at ha
      rcases ha with rfl | ha
      · right
        show (update s.pop () pc ()).hand = _
        rw [Function.update_self, hpc]
      · exact .inl ha
    · rw [hnone] at ha
      cases ha
  unfold popStep
  cases hpc : s.pop () with
  | idle => exact absurd hpc hp
  | loadTail =>
    cases ht : s.mem.tail_ <;>
      simp only [QueueMem.popStep, ht, unlink, Option.bind_none, Option.bind_some, id,
        Option.toList_none, List.append_nil] <;>
      exact hmove _ (by rw [hpc]; rfl)
  | loadHead t =>
    by_cases hhead : s.mem.head_ = some t
    · simpa [QueueMem.popStep, if_pos hhead, unlink] using hmove (.casTail t) (by rw [hpc]; rfl)
    · simpa [QueueMem.popStep, if_neg hhead, unlink] using
        hmove (.loadNext s.mem.head_) (by rw [hpc]; rfl)
  | casTail a =>
    rw [hpc] at hreads
    by_cases ht : s.mem.tail_ = some a
    · obtain ⟨c, l, hchain, hhead⟩ := h.shape.exists_head hreads.1
      obtain rfl : a = c.node := Option.some.inj (hreads.2.symm.trans hhead)
      simpa [QueueMem.popStep, if_pos ht, unlink, hchain] using
        hunlink hchain (rfl : (PopPc.storeHead c.node).hand = _) (by rw [hpc]; rfl)
          { s.mem with tail_ := none } rfl (s.popped ++ [(c.producer, c.element)])
    · simpa [QueueMem.popStep, if_neg ht, unlink] using
        hmove (.loadNext (some a)) (by rw [hpc]; rfl)
  | storeHead a =>
    have htake : Owned { s with mem := { s.mem with head_ := none }, pop := update s.pop () (.take a) } :=
      (hmove (.take a) (by rw [hpc]; rfl)).mono (fun _ => id) (fun q b hq => .inl ⟨q, hq⟩)
        (fun _ => .inl) fun _ => id
    simpa [QueueMem.popStep, unlink] using htake
  | loadNext o =>
    rw [hpc] at hreads
    obtain ⟨c, l, hchain, hhead⟩ := h.shape.exists_head hreads.1
    obtain rfl : o = some c.node := hreads.2.symm.trans hhead
    obtain ⟨next, hnode⟩ := h.owner.chain_live c (by simp [hchain])
    cases next with
    | none => simpa [QueueMem.popStep, hnode, unlink] using hmove .loadTail (by rw [hpc]; rfl)
    | some n =>
      simpa [QueueMem.popStep, hnode, unlink] using
        hmove (.casHead c.node n) (by rw [hpc]; rfl)
  | casHead a n =>
    rw [hpc] at hreads
    obtain ⟨c, l, hchain, hhead⟩ := h.shape.exists_head hreads.1
    obtain rfl : a = c.node := Option.some.inj (hreads.2.1.symm.trans hhead)
    simpa [QueueMem.popStep, if_pos hreads.2.1, unlink, hchain] using
      hunlink hchain (rfl : (PopPc.take c.node).hand = _) (by rw [hpc]; rfl)
        { s.mem with head_ := some n } rfl (s.popped ++ [(c.producer, c.element)])
  | take a =>
    obtain ⟨nd, hnd⟩ := h.owner.hand_live a (by rw [hpc]; rfl)
    simp only [QueueMem.popStep, hnd, unlink]
    intro b hb
    have hba : b ≠ a := by
      rintro rfl
      exact hb (Function.update_self ..)
    refine (hs b ?_).imp_right fun hor => .inl (hor.resolve_right ?_)
    · rintro hnone
      exact hb ((Function.update_of_ne hba ..).trans hnone)
    · rw [hpc]
      exact fun hhand => hba (Option.some.inj hhand).symm

theorem owned_step {l : QueueLabel P Unit A E} (hs : Owned s) (h : Inv s)
    (ht : LockFreeQueue.step l s = some t) : Owned t := by
  cases l with
  | callPush p x a =>
    simp only [LockFreeQueue.step, Option.ite_none_right_eq_some, Option.some.injEq] at ht
    obtain ⟨⟨hp, -⟩, rfl⟩ := ht
    exact owned_callPush hs hp x a
  | push p =>
    simp only [LockFreeQueue.step, Option.ite_none_left_eq_some, Option.some.injEq] at ht
    obtain ⟨hp, rfl⟩ := ht
    exact owned_pushStep hs h hp
  | callPop c =>
    simp only [LockFreeQueue.step, Option.ite_none_right_eq_some, Option.some.injEq] at ht
    obtain ⟨hp, rfl⟩ := ht
    refine hs.mono (fun _ => id) (fun q a hq => .inl ⟨q, hq⟩) (fun _ => .inl) fun a ha => ?_
    rw [hp] at ha
    cases ha
  | pop c =>
    simp only [LockFreeQueue.step, Option.ite_none_left_eq_some, Option.some.injEq] at ht
    obtain ⟨hp, rfl⟩ := ht
    exact owned_popStep hs h hp
  | empty c =>
    simp only [LockFreeQueue.step, Option.ite_none_right_eq_some, Option.some.injEq] at ht
    obtain ⟨-, rfl⟩ := ht
    exact hs

/-- **The destructor frees every node**: in whatever state a queue with one consumer and without
calls in progress is destroyed, the loop of the destructor ends and leaves no node.  The elements in
the nodes it frees, which it does not destroy, are those pushed and not popped, in order. -/
theorem destroyed (hs : (lockFreeQueue P Unit A E).Reachable s) (hidle : Idle s) :
    ∃ m left, Returns QueueMem.destroyRound (s.mem, []) (some (m, left)) ∧
      (∀ a, m.heap a = none) ∧ s.pushed.map Prod.snd = s.returned ++ left := by
  obtain ⟨hinv, howned⟩ : Inv s ∧ Owned s := by
    refine System.Reach.invariant (I := fun s => Inv s ∧ Owned s) ?_
      (fun _ _ _ h _ ht => ⟨inv_step h.1 ht, owned_step h.2 h.1 ht⟩) hs
    rintro t rfl
    exact ⟨inv_start, fun a ha => absurd rfl ha⟩
  have hnodes : (s.chain.map fun c => (c.node, (⟨s.mem.next c.node, c.element⟩ : Node A E))).map
      Prod.fst = s.chain.map Linked.node := by
    rw [List.map_map]
    rfl
  obtain ⟨m, hreturns, hheap⟩ := QueueMem.returns_destroyRound (hinv.isLinked hidle)
    (hnodes ▸ hinv.owner.chain_nodup) []
  refine ⟨m, _, hreturns, fun a => ?_, ?_⟩
  · rw [hheap a, hnodes]
    split_ifs with hin
    · rfl
    · by_contra hlive
      rcases howned a hlive with ⟨p, hp⟩ | hc | hh
      · rw [hidle.1] at hp
        cases hp
      · exact hin hc
      · rw [hidle.2] at hh
        cases hh
  · have hreturned := hinv.history.returned
    rw [hidle.2] at hreturned
    rw [hinv.history.pushed, List.map_append, hreturned, List.map_map, List.map_map]
    simp [PopPc.hand, QueueMem.elementAt, Function.comp_def]

/-- Two pushes, of which one has been popped. -/
def twoPushesOnePop : List (QueueLabel Unit Unit Nat Nat) :=
  [.callPush () 7 0, .push (), .push (), .push (), .push (), .callPush () 8 1, .push (), .push (),
    .push (), .callPop (), .pop (), .pop (), .pop (), .pop (), .pop ()]

theorem destroyed_twoPushesOnePop : ∃ s, (lockFreeQueue Unit Unit Nat Nat).Reachable s ∧
    s.returned = [7] ∧ ∃ m left,
      Returns QueueMem.destroyRound (s.mem, []) (some (m, left)) ∧ (∀ a, m.heap a = none) ∧
        s.pushed.map Prod.snd = s.returned ++ left := by
  have hrun : ((lockFreeQueue Unit Unit Nat Nat).run twoPushesOnePop start).isSome = true := by
    decide
  have hs := System.reachable_of_run rfl (Option.some_get hrun).symm
  exact ⟨_, hs, rfl, destroyed hs ⟨fun _ => rfl, rfl⟩⟩

end Steps

end LockFreeQueue

end Lizlib
