import Lizlib.Concurrent.Equiv.LockFreeQueue

/-!
# The chain of a queue with several consumers

As with one consumer, the linked nodes form a chain.  `Owned` says who may touch a node, `Seen` what
a consumer still knows about the `head_` it has loaded, and `Linkage` how the chain is linked; a
compare-exchange on a `head_` or `tail_` that has moved on fails, because no node comes back.  Each
step of `Push` and `Pop` keeps all three, as long as the node that `Pop` reads is live.
-/

namespace Lizlib

/-- The node `Pop` has loaded from `head_` and not unlinked yet. -/
def PopPc.seen {A : Type*} : PopPc A → Option A
  | .casTail head_read | .casHead head_read _ => some head_read
  | .loadNext head_read => head_read
  | _ => none

/-- `Push` has yet to store `tail_` or a `next_`. -/
def PushPc.stores {A : Type*} : PushPc A → Bool
  | .storeTail _ | .storeNext _ _ => true
  | _ => false

namespace FreshQueue

open Function (update update_self update_of_ne)
open LockFreeQueue (own_of_update push_of_update own_update withNode next_withNode_ne
  next_withNode_self)

variable {P C A E : Type*}

/-! ### The invariant -/

section Invariant

variable (m : QueueMem A E) (push : P → PushPc A) (pop : C → PopPc A) (chain : List (Linked P A E))

/-- A live node has one owner: the producer that has not linked it yet, the chain, or the consumer
that has unlinked it.  What a consumer has taken is dead. -/
structure Owned (used taken : List A) : Prop where
  own_live : ∀ p n, (push p).own = some n → ∃ x, m.heap n = some ⟨none, x⟩
  own_unique : ∀ p q n, (push p).own = some n → (push q).own = some n → p = q
  own_chain : ∀ p n, (push p).own = some n → ∀ l ∈ chain, l.node ≠ n
  chain_live : ∀ l ∈ chain, ∃ next, m.heap l.node = some ⟨next, l.element⟩
  chain_nodup : (chain.map Linked.node).Nodup
  hand_live : ∀ c h, (pop c).hand = some h → ∃ nd, m.heap h = some nd
  hand_own : ∀ c h, (pop c).hand = some h → ∀ p, (push p).own ≠ some h
  hand_chain : ∀ c h, (pop c).hand = some h → ∀ l ∈ chain, l.node ≠ h
  hand_unique : ∀ c d h, (pop c).hand = some h → (pop d).hand = some h → c = d
  live_used : ∀ a nd, m.heap a = some nd → a ∈ used
  taken_dead : ∀ a ∈ taken, a ∈ used ∧ m.heap a = none
  taken_nodup : taken.Nodup

/-- What a consumer knows about the node it has loaded from `head_`: it has been linked, it is the
first one if it is still linked, and its `next_` stays once it is set. -/
structure Seen (used : List A) : Prop where
  used : ∀ c h, (pop c).seen = some h → h ∈ used
  own : ∀ c h, (pop c).seen = some h → ∀ p, (push p).own ≠ some h
  head : ∀ c h, (pop c).seen = some h → ∀ l ∈ chain, l.node = h → chain.head? = some l
  next : ∀ c h n, pop c = .casHead h n → ∀ nd, m.heap h = some nd → nd.next_ = some n

/-- How the chain is linked. -/
structure Linkage : Prop where
  head_cons : ∀ l, chain.head? = some l → m.head_ = some l.node
  head_nil : chain = [] → ∀ h, m.head_ = some h ↔ ∃ c, pop c = .storeHead h
  tail_some : ∀ t, m.tail_ = some t → ∃ l, chain.getLast? = some l ∧ l.node = t
  tail_none : m.tail_ = none → chain = [] ∨ ∃ l, chain = [l] ∧ push l.producer = .storeTail l.node
  storeTail : ∀ p n, push p = .storeTail n → m.tail_ = none ∧ ∃ x, chain = [⟨n, p, x⟩]
  storeHead : ∀ c h, pop c = .storeHead h → chain = [] ∧ m.next h = none
  links : ∀ k l, chain.Adjacent k l → m.next k.node = some l.node ∨
    (m.next k.node = none ∧ push l.producer = .storeNext l.node k.node)
  last : ∀ l, chain.getLast? = some l → m.next l.node = none
  storeNext : ∀ p n t, push p = .storeNext n t → m.next t = none ∧
    ∃ k l, chain.Adjacent k l ∧ k.node = t ∧ l.node = n ∧ l.producer = p

structure Inv (used taken : List A) : Prop where
  owned : Owned m push pop chain used taken
  seen : Seen m push pop chain used
  linkage : Linkage m push pop chain

end Invariant

variable {m : QueueMem A E} {push : P → PushPc A} {pop : C → PopPc A} {chain : List (Linked P A E)}
  {used taken : List A}

/-! ### Where a consumer stands after a step -/

section Update

variable [DecidableEq C]

/-- What is observed of a consumer, unless it is the one that has moved on to nothing. -/
theorem obs_of_update {B : Type*} {obs : PopPc A → Option B} {c d : C} {pc : PopPc A} {b : B}
    (hpc : obs pc = none) (hd : obs (update pop c pc d) = some b) : d ≠ c ∧ obs (pop d) = some b := by
  by_cases hdc : d = c
  · subst hdc
    rw [update_self, hpc] at hd
    cases hd
  · rw [update_of_ne hdc] at hd
    exact ⟨hdc, hd⟩

/-- A move that does not change what is observed. -/
theorem obs_update {B : Type*} {obs : PopPc A → B} {c : C} {pc : PopPc A}
    (hpc : obs pc = obs (pop c)) (d : C) : obs (update pop c pc d) = obs (pop d) := by
  by_cases hdc : d = c
  · subst hdc
    rw [update_self, hpc]
  · rw [update_of_ne hdc]

/-- A consumer that does not stand where the one that has moved stands now has not moved. -/
theorem pop_of_update {c d : C} {pc pc' : PopPc A} (hne : pc' ≠ pc)
    (hd : update pop c pc d = pc') : d ≠ c ∧ pop d = pc' := by
  by_cases hdc : d = c
  · subst hdc
    rw [update_self] at hd
    exact absurd hd.symm hne
  · rw [update_of_ne hdc] at hd
    exact ⟨hdc, hd⟩

end Update

/-! ### What the invariant says about a state -/

theorem Owned.node_inj (h : Owned m push pop chain used taken) {k l : Linked P A E}
    (hk : k ∈ chain) (hl : l ∈ chain) (hkl : k.node = l.node) : k = l :=
  List.inj_on_of_nodup_map h.chain_nodup hk hl hkl

theorem Linkage.tail_eq_none (h : Linkage m push pop chain) (hnil : chain = []) :
    m.tail_ = none := by
  cases ht : m.tail_ with
  | none => rfl
  | some t =>
    obtain ⟨l, hl, -⟩ := h.tail_some t ht
    simp [hnil] at hl

theorem Linkage.chain_eq_nil (h : Linkage m push pop chain) (hhead : m.head_ = none) :
    chain = [] := by
  cases hc : chain with
  | nil => rfl
  | cons l chain' => simpa [hhead] using h.head_cons l (by simp [hc])

/-- Only one consumer is about to clear `head_`. -/
theorem Linkage.storeHead_unique (h : Linkage m push pop chain)
    (ho : Owned m push pop chain used taken) {c d : C} {a b : A} (hc : pop c = .storeHead a)
    (hd : pop d = .storeHead b) : c = d := by
  have hnil := (h.storeHead c a hc).1
  have ha := (h.head_nil hnil a).mpr ⟨c, hc⟩
  have hb := (h.head_nil hnil b).mpr ⟨d, hd⟩
  obtain rfl : a = b := Option.some.inj (ha.symm.trans hb)
  exact ho.hand_unique c d a (by rw [hc]; rfl) (by rw [hd]; rfl)

/-- The node `head_` points to: the first one of the chain, or the last one a consumer has
unlinked. -/
theorem Inv.head_cases (h : Inv m push pop chain used taken) {a : A} (ha : m.head_ = some a) :
    (∃ l chain', chain = l :: chain' ∧ l.node = a) ∨ chain = [] ∧ ∃ c, pop c = .storeHead a := by
  cases hc : chain with
  | nil => exact Or.inr ⟨rfl, (h.linkage.head_nil hc a).mp ha⟩
  | cons l chain' =>
    have hl := h.linkage.head_cons l (by simp [hc])
    exact Or.inl ⟨l, chain', rfl, Option.some.inj (hl.symm.trans ha)⟩

/-- What a load of `head_` finds. -/
theorem Inv.load_head (h : Inv m push pop chain used taken) {a : A} (ha : m.head_ = some a) :
    (∃ nd, m.heap a = some nd) ∧ (∀ p, (push p).own ≠ some a) ∧
      ∀ l ∈ chain, l.node = a → chain.head? = some l := by
  rcases h.head_cases ha with ⟨l, chain', hchain, rfl⟩ | ⟨hnil, c, hc⟩
  · have hmem : l ∈ chain := by simp [hchain]
    obtain ⟨next, hnext⟩ := h.owned.chain_live l hmem
    refine ⟨⟨_, hnext⟩, fun p hp => h.owned.own_chain p _ hp l hmem rfl, ?_⟩
    intro k hk hkl
    rw [h.owned.node_inj hk hmem hkl, hchain]
    rfl
  · have hhand : (pop c).hand = some a := by rw [hc]; rfl
    refine ⟨h.owned.hand_live c a hhand, h.owned.hand_own c a hhand, ?_⟩
    intro k hk
    simp [hnil] at hk

/-- Ownership speaks about nodes, and not about `head_` and `tail_` or where the threads stand. -/
theorem Owned.congr (h : Owned m push pop chain used taken) {m' : QueueMem A E}
    {push' : P → PushPc A} {pop' : C → PopPc A} (hown : ∀ p, (push' p).own = (push p).own)
    (hheap : m'.heap = m.heap) (hhand : ∀ c, (pop' c).hand = (pop c).hand) :
    Owned m' push' pop' chain used taken := by
  obtain ⟨h1, h2, h3, h4, h5, h6, h7, h8, h9, h10, h11, h12⟩ := h
  constructor <;> first | assumption | simpa only [hown, hheap, hhand]

/-! ### Steps of a producer -/

section Producer

variable [DecidableEq P]

/-- A producer that moves on without linking its node in, and without a store to come. -/
theorem Inv.movePush (h : Inv m push pop chain used taken) {p : P} (pc : PushPc A)
    (hown : pc.own = (push p).own) (hstores : (push p).stores = false)
    (hstores' : pc.stores = false) : Inv m (update push p pc) pop chain used taken := by
  have hkeep : ∀ q, (update push p pc q).own = (push q).own := by
    intro q
    rw [own_update]
    split_ifs with hqp
    · rw [hown, hqp]
    · rfl
  have hback : ∀ q pc', pc'.stores = true → (update push p pc q = pc' ↔ push q = pc') := by
    intro q pc' hpc'
    by_cases hqp : q = p
    · subst hqp
      rw [update_self]
      constructor
      · rintro rfl
        simp [hstores'] at hpc'
      · rintro rfl
        simp [hstores] at hpc'
    · rw [update_of_ne hqp]
  obtain ⟨ho, hs, hl⟩ := h
  refine ⟨?_, ?_, ?_⟩
  · exact ho.congr hkeep rfl fun _ => rfl
  · exact ⟨hs.used, by simpa only [hkeep] using hs.own, hs.head, hs.next⟩
  · obtain ⟨h1, h2, h3, h4, h5, h6, h7, h8, h9⟩ := hl
    constructor <;> first
      | assumption
      | simpa only [hback _ (.storeTail _) rfl, hback _ (.storeNext _ _) rfl]

/-! #### Allocation -/

section Alloc

variable [DecidableEq A] {p : P} {n : A} {x : E} (hfresh : n ∉ used)

include hfresh

omit [DecidableEq P] [DecidableEq A] in
theorem Owned.ne_of_live (h : Owned m push pop chain used taken) {a : A} {nd : Node A E}
    (ha : m.heap a = some nd) : a ≠ n := by
  rintro rfl
  exact hfresh (h.live_used a nd ha)

omit [DecidableEq P] hfresh in
theorem heap_alloc_ne {a : A} (ha : a ≠ n) :
    (withNode m n (some ⟨none, x⟩)).heap a = m.heap a := update_of_ne ha _ _

/-- The node belongs to the producer that has allocated it. -/
theorem Owned.callPush (h : Owned m push pop chain used taken) :
    Owned (withNode m n (some ⟨none, x⟩)) (update push p (.loadTail n)) pop chain (used ++ [n])
      taken := by
  have hown : ∀ q a, (push q).own = some a → a ≠ n := by
    intro q a hq
    obtain ⟨y, hy⟩ := h.own_live q a hq
    exact h.ne_of_live hfresh hy
  have hnode : ∀ l ∈ chain, l.node ≠ n := by
    intro l hl
    obtain ⟨next, hnext⟩ := h.chain_live l hl
    exact h.ne_of_live hfresh hnext
  have hhand : ∀ c a, (pop c).hand = some a → a ≠ n := by
    intro c a hc
    obtain ⟨nd, hnd⟩ := h.hand_live c a hc
    exact h.ne_of_live hfresh hnd
  constructor
  · intro q a hq
    rw [own_update] at hq
    split_ifs at hq with hqp
    · obtain rfl : n = a := by simpa [PushPc.own] using hq
      exact ⟨x, update_self _ _ _⟩
    · rw [heap_alloc_ne (hown q a hq)]
      exact h.own_live q a hq
  · intro q r a hq hr
    rw [own_update] at hq hr
    split_ifs at hq hr with hqp hrp hrp
    · rw [hqp, hrp]
    · obtain rfl : n = a := by simpa [PushPc.own] using hq
      exact absurd rfl (hown r _ hr)
    · obtain rfl : n = a := by simpa [PushPc.own] using hr
      exact absurd rfl (hown q _ hq)
    · exact h.own_unique q r a hq hr
  · intro q a hq l hl
    rw [own_update] at hq
    split_ifs at hq with hqp
    · obtain rfl : n = a := by simpa [PushPc.own] using hq
      exact hnode l hl
    · exact h.own_chain q a hq l hl
  · intro l hl
    rw [heap_alloc_ne (hnode l hl)]
    exact h.chain_live l hl
  · exact h.chain_nodup
  · intro c a hc
    rw [heap_alloc_ne (hhand c a hc)]
    exact h.hand_live c a hc
  · intro c a hc q hq
    rw [own_update] at hq
    split_ifs at hq with hqp
    · obtain rfl : n = a := by simpa [PushPc.own] using hq
      exact hhand c _ hc rfl
    · exact h.hand_own c a hc q hq
  · exact h.hand_chain
  · exact h.hand_unique
  · intro a nd ha
    by_cases han : a = n
    · simp [han]
    · rw [heap_alloc_ne han] at ha
      exact List.mem_append_left _ (h.live_used a nd ha)
  · intro a ha
    obtain ⟨hmem, hdead⟩ := h.taken_dead a ha
    have han : a ≠ n := by
      rintro rfl
      exact hfresh hmem
    exact ⟨List.mem_append_left _ hmem, by rw [heap_alloc_ne han, hdead]⟩
  · exact h.taken_nodup

theorem Seen.callPush (h : Seen m push pop chain used) :
    Seen (withNode m n (some ⟨none, x⟩)) (update push p (.loadTail n)) pop chain (used ++ [n]) := by
  constructor
  · intro c a hc
    exact List.mem_append_left _ (h.used c a hc)
  · intro c a hc q hq
    rw [own_update] at hq
    split_ifs at hq with hqp
    · obtain rfl : n = a := by simpa [PushPc.own] using hq
      exact hfresh (h.used c _ hc)
    · exact h.own c a hc q hq
  · exact h.head
  · intro c a b hc nd hnd
    have han : a ≠ n := by
      rintro rfl
      exact hfresh (h.used c a (by rw [hc]; rfl))
    rw [heap_alloc_ne han] at hnd
    exact h.next c a b hc nd hnd

/-- The chain does not notice a node that nobody has linked in. -/
theorem Linkage.callPush (h : Linkage m push pop chain) (ho : Owned m push pop chain used taken)
    (hpc : push p = .idle) :
    Linkage (withNode m n (some ⟨none, x⟩)) (update push p (.loadTail n)) pop chain := by
  have hnext : ∀ l ∈ chain, (withNode m n (some ⟨none, x⟩)).next l.node = m.next l.node := by
    intro l hl
    obtain ⟨next, hnext⟩ := ho.chain_live l hl
    exact next_withNode_ne _ _ (ho.ne_of_live hfresh hnext)
  have hkeep : ∀ q pc, pc.stores = true → push q = pc → update push p (.loadTail n) q = pc := by
    intro q pc hpc' hq
    rw [update_of_ne]
    · exact hq
    · rintro rfl
      rw [← hq, hpc] at hpc'
      cases hpc'
  constructor
  · exact h.head_cons
  · exact h.head_nil
  · exact h.tail_some
  · intro ht
    apply (h.tail_none ht).imp_right
    rintro ⟨l, hl, hst⟩
    exact ⟨l, hl, hkeep _ _ rfl hst⟩
  · intro q a hq
    exact h.storeTail q a (push_of_update (by simp) hq).2
  · intro c a hc
    obtain ⟨hnil, hnone⟩ := h.storeHead c a hc
    obtain ⟨nd, hnd⟩ := ho.hand_live c a (by rw [hc]; rfl)
    exact ⟨hnil, by rw [next_withNode_ne _ _ (ho.ne_of_live hfresh hnd), hnone]⟩
  · intro k l hkl
    rw [hnext k hkl.left_mem]
    exact (h.links k l hkl).imp_right fun hmissing => ⟨hmissing.1, hkeep _ _ rfl hmissing.2⟩
  · intro l hl
    rw [hnext l (List.mem_of_getLast? hl)]
    exact h.last l hl
  · intro q a t hq
    obtain ⟨hnone, k, l, hkl, rfl, hl⟩ := h.storeNext q a t (push_of_update (by simp) hq).2
    exact ⟨by rw [hnext k hkl.left_mem, hnone], k, l, hkl, rfl, hl⟩

/-- `new Node` takes an address that has never been in use. -/
theorem Inv.callPush (h : Inv m push pop chain used taken) (hpc : push p = .idle) :
    Inv (withNode m n (some ⟨none, x⟩)) (update push p (.loadTail n)) pop chain (used ++ [n])
      taken :=
  ⟨h.owned.callPush hfresh, h.seen.callPush hfresh, h.linkage.callPush hfresh h.owned hpc⟩

end Alloc

/-! #### Linking -/

section Link

variable {p : P} {n : A} {x : E} {pc : PushPc A} {m' : QueueMem A E}
  (hown : (push p).own = some n) (hpc : pc.own = none) (hm : m'.heap = m.heap)

include hown hpc hm

/-- The node goes from its producer to the chain. -/
theorem Owned.link (h : Owned m push pop chain used taken) (hn : m.heap n = some ⟨none, x⟩) :
    Owned m' (update push p pc) pop (chain ++ [⟨n, p, x⟩]) used taken := by
  constructor
  · intro q a hq
    rw [hm]
    exact h.own_live q a (own_of_update hpc hq).2
  · intro q r a hq hr
    exact h.own_unique q r a (own_of_update hpc hq).2 (own_of_update hpc hr).2
  · intro q a hq l hl
    obtain ⟨hqp, hq⟩ := own_of_update hpc hq
    rcases List.mem_append.mp hl with hl | hl
    · exact h.own_chain q a hq l hl
    · obtain rfl := List.mem_singleton.mp hl
      rintro rfl
      exact hqp (h.own_unique q p _ hq hown)
  · intro l hl
    rw [hm]
    rcases List.mem_append.mp hl with hl | hl
    · exact h.chain_live l hl
    · obtain rfl := List.mem_singleton.mp hl
      exact ⟨none, hn⟩
  · rw [List.map_append]
    apply List.nodup_append.mpr
    refine ⟨h.chain_nodup, List.nodup_singleton _, ?_⟩
    rintro a ha b hb rfl
    obtain ⟨l, hl, rfl⟩ := List.mem_map.mp ha
    exact h.own_chain p n hown l hl (List.mem_singleton.mp hb)
  · intro c a hc
    rw [hm]
    exact h.hand_live c a hc
  · intro c a hc q hq
    exact h.hand_own c a hc q (own_of_update hpc hq).2
  · intro c a hc l hl
    rcases List.mem_append.mp hl with hl | hl
    · exact h.hand_chain c a hc l hl
    · obtain rfl := List.mem_singleton.mp hl
      rintro rfl
      exact h.hand_own c _ hc p hown
  · exact h.hand_unique
  · intro a nd ha
    rw [hm] at ha
    exact h.live_used a nd ha
  · intro a ha
    rw [hm]
    exact h.taken_dead a ha
  · exact h.taken_nodup

theorem Seen.link (h : Seen m push pop chain used) :
    Seen m' (update push p pc) pop (chain ++ [⟨n, p, x⟩]) used := by
  constructor
  · exact h.used
  · intro c a hc q hq
    exact h.own c a hc q (own_of_update hpc hq).2
  · intro c a hc l hl hla
    rcases List.mem_append.mp hl with hl | hl
    · have hhead := h.head c a hc l hl hla
      rw [List.head?_append, hhead]
      rfl
    · obtain rfl := List.mem_singleton.mp hl
      subst hla
      exact absurd hown (h.own c _ hc p)
  · intro c a b hc nd hnd
    rw [hm] at hnd
    exact h.next c a b hc nd hnd

end Link

/-- The compare-exchange on `head_` succeeds: the chain was empty. -/
theorem Inv.linkHead (h : Inv m push pop chain used taken) {p : P} {n : A} {x : E}
    (hpc : push p = .casHead n) (hn : m.heap n = some ⟨none, x⟩) (hhead : m.head_ = none) :
    Inv { m with head_ := some n } (update push p (.storeTail n)) pop (chain ++ [⟨n, p, x⟩]) used
      taken := by
  have hown : (push p).own = some n := by rw [hpc]; rfl
  have hnil := h.linkage.chain_eq_nil hhead
  have htail := h.linkage.tail_eq_none hnil
  -- nobody is in the middle of an update of the empty chain
  have hpop : ∀ c a, pop c ≠ .storeHead a := by
    intro c a hc
    have hsome := (h.linkage.head_nil hnil a).mpr ⟨c, hc⟩
    simp [hhead] at hsome
  have hother : ∀ q a, push q ≠ .storeTail a := by
    intro q a hq
    obtain ⟨-, y, hy⟩ := h.linkage.storeTail q a hq
    simp [hnil] at hy
  have hnext : ∀ q a t, push q ≠ .storeNext a t := by
    intro q a t hq
    obtain ⟨-, k, l, hkl, -⟩ := h.linkage.storeNext q a t hq
    simp [hnil] at hkl
  refine ⟨h.owned.link (m := m) hown rfl rfl hn, h.seen.link (m := m) hown rfl rfl, ?_⟩
  rw [hnil, List.nil_append]
  constructor
  · intro l hl
    obtain rfl : _ = l := by simpa using hl
    rfl
  · simp
  · intro t ht
    simp [htail] at ht
  · intro _
    exact Or.inr ⟨_, rfl, update_self _ _ _⟩
  · intro q a hq
    by_cases hqp : q = p
    · subst hqp
      obtain rfl : n = a := by simpa using hq
      exact ⟨htail, x, rfl⟩
    · rw [update_of_ne hqp] at hq
      exact absurd hq (hother q a)
  · intro c a hc
    exact absurd hc (hpop c a)
  · intro k l hkl
    simp at hkl
  · intro l hl
    obtain rfl : _ = l := by simpa using hl
    simp [QueueMem.next, hn]
  · intro q a t hq
    exact absurd (push_of_update (by simp) hq).2 (hnext q a t)

/-- The producer of the only node stores `tail_`. -/
theorem Inv.storeTail (h : Inv m push pop chain used taken) {p : P} {n : A}
    (hpc : push p = .storeTail n) :
    Inv { m with tail_ := some n } (update push p .onEmpty) pop chain used taken := by
  obtain ⟨htail, x, hchain⟩ := h.linkage.storeTail p n hpc
  have hkeep : ∀ q, (update push p .onEmpty q).own = (push q).own := by
    intro q
    rw [own_update]
    split_ifs with hqp
    · rw [hqp, hpc]
      rfl
    · rfl
  refine ⟨h.owned.congr hkeep rfl fun _ => rfl, ?_, ?_⟩
  · exact ⟨h.seen.used, by simpa only [hkeep] using h.seen.own, h.seen.head, h.seen.next⟩
  constructor
  · exact h.linkage.head_cons
  · intro hnil
    simp [hchain] at hnil
  · intro t ht
    obtain rfl : n = t := by simpa using ht
    exact ⟨_, by simp [hchain]; rfl, rfl⟩
  · simp
  · intro q a hq
    obtain ⟨hqp, hq⟩ := push_of_update (by simp) hq
    obtain ⟨-, y, hy⟩ := h.linkage.storeTail q a hq
    simp only [hchain, List.cons.injEq, and_true, Linked.mk.injEq] at hy
    exact absurd hy.2.1.symm hqp
  · exact h.linkage.storeHead
  · intro k l hkl
    simp [hchain] at hkl
  · exact h.linkage.last
  · intro q a t hq
    obtain ⟨-, k, l, hkl, -⟩ := h.linkage.storeNext q a t (push_of_update (by simp) hq).2
    simp [hchain] at hkl

/-- The compare-exchange on `tail_` succeeds: the node follows the last one, whose `next_` is still
null. -/
theorem Inv.linkTail (h : Inv m push pop chain used taken) {p : P} {n t : A} {x : E}
    (hpc : push p = .casTail n t) (hn : m.heap n = some ⟨none, x⟩) (ht : m.tail_ = some t) :
    Inv { m with tail_ := some n } (update push p (.storeNext n t)) pop (chain ++ [⟨n, p, x⟩]) used
      taken := by
  have hown : (push p).own = some n := by rw [hpc]; rfl
  obtain ⟨l₀, hl₀, rfl⟩ := h.linkage.tail_some t ht
  have hne : chain ≠ [] := by
    intro hnil
    simp [hnil] at hl₀
  refine ⟨h.owned.link (m := m) hown rfl rfl hn, h.seen.link (m := m) hown rfl rfl, ?_⟩
  constructor
  · intro l hl
    rw [List.head?_append_of_ne_nil _ hne] at hl
    exact h.linkage.head_cons l hl
  · intro hnil
    simp at hnil
  · intro a ha
    obtain rfl : n = a := by simpa using ha
    exact ⟨_, List.getLast?_concat, rfl⟩
  · intro hnone
    simp at hnone
  · intro q a hq
    obtain ⟨hnone, -⟩ := h.linkage.storeTail q a (push_of_update (by simp) hq).2
    simp [ht] at hnone
  · intro c a hc
    exact absurd (h.linkage.storeHead c a hc).1 hne
  · intro k l hkl
    rcases List.adjacent_concat_iff.mp hkl with ⟨hk, rfl⟩ | hkl
    · -- the new link is missing until the producer stores it
      obtain rfl : l₀ = k := Option.some.inj (hl₀.symm.trans hk)
      exact Or.inr ⟨h.linkage.last _ hk, update_self _ _ _⟩
    · apply (h.linkage.links k l hkl).imp_right
      rintro ⟨hnone, hst⟩
      have hlp : l.producer ≠ p := by
        rintro rfl
        simp [hpc] at hst
      exact ⟨hnone, by rw [update_of_ne hlp, hst]⟩
  · intro l hl
    obtain rfl : _ = l := by simpa using hl
    simp [QueueMem.next, hn]
  · intro q a t hq
    by_cases hqp : q = p
    · subst hqp
      obtain ⟨rfl, rfl⟩ : n = a ∧ l₀.node = t := by simpa using hq
      exact ⟨h.linkage.last _ hl₀, l₀, ⟨n, q, x⟩, List.adjacent_concat_iff.mpr (Or.inl ⟨hl₀, rfl⟩),
        rfl, rfl, rfl⟩
    · rw [update_of_ne hqp] at hq
      obtain ⟨hnone, k, l, hkl, hl⟩ := h.linkage.storeNext q a t hq
      exact ⟨hnone, k, l, List.adjacent_concat_iff.mpr (Or.inr hkl), hl⟩

/-! #### The missing link -/

section StoreNext

variable [DecidableEq A] {k₀ l₀ : Linked P A E} {nd : Node A E} {next : Option A}
  (hmem : k₀ ∈ chain) (hk : m.heap k₀.node = some nd)

include hmem hk

theorem Owned.storeNext (h : Owned m push pop chain used taken) (p : P) :
    Owned (withNode m k₀.node (some { nd with next_ := next })) (update push p .idle) pop chain used
      taken := by
  have hother : ∀ a, a ≠ k₀.node →
      (withNode m k₀.node (some { nd with next_ := next })).heap a = m.heap a :=
    fun a ha => update_of_ne ha _ _
  constructor
  · intro q a hq
    obtain ⟨-, hq⟩ := own_of_update rfl hq
    rw [hother a fun ha => h.own_chain q a hq k₀ hmem ha.symm]
    exact h.own_live q a hq
  · intro q r a hq hr
    exact h.own_unique q r a (own_of_update rfl hq).2 (own_of_update rfl hr).2
  · intro q a hq
    exact h.own_chain q a (own_of_update rfl hq).2
  · intro l hl
    by_cases hlk : l.node = k₀.node
    · obtain rfl := h.node_inj hl hmem hlk
      obtain ⟨b, hb⟩ := h.chain_live l hl
      obtain rfl : nd = _ := Option.some.inj (hk.symm.trans hb)
      exact ⟨next, update_self _ _ _⟩
    · rw [hother _ hlk]
      exact h.chain_live l hl
  · exact h.chain_nodup
  · intro c a hc
    rw [hother a fun ha => h.hand_chain c a hc k₀ hmem ha.symm]
    exact h.hand_live c a hc
  · intro c a hc q hq
    exact h.hand_own c a hc q (own_of_update rfl hq).2
  · exact h.hand_chain
  · exact h.hand_unique
  · intro a nd' ha
    by_cases hak : a = k₀.node
    · exact hak ▸ h.live_used _ nd hk
    · rw [hother a hak] at ha
      exact h.live_used a nd' ha
  · intro a ha
    obtain ⟨hused, hdead⟩ := h.taken_dead a ha
    have hak : a ≠ k₀.node := by
      rintro rfl
      simp [hk] at hdead
    exact ⟨hused, by rw [hother a hak, hdead]⟩
  · exact h.taken_nodup

omit hmem in
theorem Seen.storeNext (h : Seen m push pop chain used) (hnone : nd.next_ = none) (p : P) :
    Seen (withNode m k₀.node (some { nd with next_ := next })) (update push p .idle) pop chain
      used := by
  constructor
  · exact h.used
  · intro c a hc q hq
    exact h.own c a hc q (own_of_update rfl hq).2
  · exact h.head
  · intro c a b hc nd' hnd'
    have hak : a ≠ k₀.node := by
      rintro rfl
      have hsome := h.next c _ b hc nd hk
      simp [hnone] at hsome
    have hsame : m.heap a = some nd' := (update_of_ne hak _ _).symm.trans hnd'
    exact h.next c a b hc nd' hsame

end StoreNext

/-- The missing link between two neighbours is there now; all others are as before. -/
theorem Linkage.linkNext [DecidableEq A] (h : Linkage m push pop chain)
    (ho : Owned m push pop chain used taken) {nd : Node A E} {k₀ l₀ : Linked P A E}
    (hkl₀ : chain.Adjacent k₀ l₀) (hpc : push l₀.producer = .storeNext l₀.node k₀.node) :
    Linkage (withNode m k₀.node (some { nd with next_ := some l₀.node }))
      (update push l₀.producer .idle) pop chain := by
  have hnodup : chain.Nodup := ho.chain_nodup.of_map _
  have hmem := hkl₀.left_mem
  constructor
  · exact h.head_cons
  · exact h.head_nil
  · exact h.tail_some
  · intro htail
    rcases h.tail_none htail with hnil | ⟨l, hl, -⟩
    · exact Or.inl hnil
    · simp [hl] at hkl₀
  · intro q a hq
    exact h.storeTail q a (push_of_update (by simp) hq).2
  · intro c a hc
    have hak : a ≠ k₀.node := by
      rintro rfl
      exact ho.hand_chain c _ (by rw [hc]; rfl) k₀ hmem rfl
    rw [next_withNode_ne _ _ hak]
    exact h.storeHead c a hc
  · intro k l hkl
    by_cases hkk : k.node = k₀.node
    · obtain rfl := ho.node_inj hkl.left_mem hmem hkk
      obtain rfl := hkl.right_unique hnodup hkl₀
      exact Or.inl (next_withNode_self _ _)
    · rw [next_withNode_ne _ _ hkk]
      apply (h.links k l hkl).imp_right
      rintro ⟨hnone, hst⟩
      have hll : l.producer ≠ l₀.producer := by
        intro hll
        rw [hll, hpc] at hst
        exact hkk (PushPc.storeNext.inj hst).2.symm
      exact ⟨hnone, by rw [update_of_ne hll, hst]⟩
  · intro l hl
    have hlk : l.node ≠ k₀.node := by
      intro hlk
      obtain rfl := ho.node_inj (List.mem_of_getLast? hl) hmem hlk
      exact hkl₀.ne_last hnodup hl
    rw [next_withNode_ne _ _ hlk]
    exact h.last l hl
  · intro q a t hq
    -- the missing link of another producer stands before another node
    obtain ⟨hqp, hq⟩ := push_of_update (by simp) hq
    obtain ⟨hnone, k, l, hkl, rfl, hl, rfl⟩ := h.storeNext q a t hq
    have hkk : k.node ≠ k₀.node := by
      intro hkk
      obtain rfl := ho.node_inj hkl.left_mem hmem hkk
      obtain rfl := hkl.right_unique hnodup hkl₀
      exact hqp rfl
    exact ⟨by rw [next_withNode_ne _ _ hkk, hnone], k, l, hkl, rfl, hl, rfl⟩

/-- The producer writes the `next_` of the node before its own, and returns. -/
theorem Inv.storeNext [DecidableEq A] (h : Inv m push pop chain used taken) {p : P} {n t : A}
    {nd : Node A E} (hpc : push p = .storeNext n t) (ht : m.heap t = some nd) :
    Inv (withNode m t (some { nd with next_ := some n })) (update push p .idle) pop chain used
      taken := by
  obtain ⟨hnone, k₀, l₀, hkl₀, rfl, rfl, rfl⟩ := h.linkage.storeNext p n t hpc
  have hnd : nd.next_ = none := by
    simpa [QueueMem.next, ht] using hnone
  exact ⟨h.owned.storeNext hkl₀.left_mem ht _, h.seen.storeNext ht hnd _,
    h.linkage.linkNext h.owned hkl₀ hpc⟩

end Producer

/-! ### Steps of a consumer -/

section Consumer

variable [DecidableEq C]

/-- A consumer that moves on without touching the memory. -/
theorem Inv.movePop (h : Inv m push pop chain used taken) {c : C} (pc : PopPc A)
    (hhand : (pop c).hand = none) (hhand' : pc.hand = none)
    (hused : ∀ a, pc.seen = some a → a ∈ used ∧ (∀ p, (push p).own ≠ some a) ∧
      ∀ l ∈ chain, l.node = a → chain.head? = some l)
    (hnext : ∀ a b, pc = .casHead a b → ∀ nd, m.heap a = some nd → nd.next_ = some b) :
    Inv m push (update pop c pc) chain used taken := by
  have hkeep : ∀ d, (update pop c pc d).hand = (pop d).hand := obs_update (hhand'.trans hhand.symm)
  have hback : ∀ d a, update pop c pc d = .storeHead a ↔ pop d = .storeHead a := by
    intro d a
    by_cases hdc : d = c
    · subst hdc
      rw [update_self]
      constructor
      · rintro rfl
        cases hhand'
      · intro hd
        rw [hd] at hhand
        cases hhand
    · rw [update_of_ne hdc]
  have hseen : ∀ d a, (update pop c pc d).seen = some a → a ∈ used ∧ (∀ p, (push p).own ≠ some a) ∧
      ∀ l ∈ chain, l.node = a → chain.head? = some l := by
    intro d a hd
    by_cases hdc : d = c
    · subst hdc
      rw [update_self] at hd
      exact hused a hd
    · rw [update_of_ne hdc] at hd
      exact ⟨h.seen.used d a hd, h.seen.own d a hd, h.seen.head d a hd⟩
  refine ⟨h.owned.congr (fun _ => rfl) rfl hkeep, ?_, ?_⟩
  · refine ⟨fun d a hd => (hseen d a hd).1, fun d a hd => (hseen d a hd).2.1,
      fun d a hd => (hseen d a hd).2.2, ?_⟩
    intro d a b hd
    by_cases hdc : d = c
    · subst hdc
      rw [update_self] at hd
      exact hnext a b hd
    · rw [update_of_ne hdc] at hd
      exact h.seen.next d a b hd
  · obtain ⟨h1, h2, h3, h4, h5, h6, h7, h8, h9⟩ := h.linkage
    refine ⟨h1, ?_, h3, h4, h5, ?_, h7, h8, h9⟩
    · simpa only [hback] using h2
    · simpa only [hback] using h6

/-- A consumer that begins again, or has found the queue empty. -/
theorem Inv.restart (h : Inv m push pop chain used taken) {c : C} (pc : PopPc A)
    (hhand : (pop c).hand = none) (hhand' : pc.hand = none) (hseen : pc.seen = none) :
    Inv m push (update pop c pc) chain used taken := by
  apply h.movePop pc hhand hhand'
  · intro a ha
    simp [hseen] at ha
  · rintro a b rfl
    cases hseen

/-! #### Unlinking -/

section Unlink

variable {c : C} {pc : PopPc A} {l : Linked P A E} {rest : List (Linked P A E)} {m' : QueueMem A E}
  (hpc : pc.hand = some l.node) (hm : m'.heap = m.heap)

include hpc hm

/-- The oldest node goes from the chain to the consumer. -/
theorem Owned.unlink (h : Owned m push pop (l :: rest) used taken) :
    Owned m' push (update pop c pc) rest used taken := by
  have hmem : ∀ k ∈ rest, k ∈ l :: rest := fun k hk => List.mem_cons_of_mem l hk
  have hl : l ∈ l :: rest := List.mem_cons_self
  have hnodup := h.chain_nodup
  rw [List.map_cons, List.nodup_cons] at hnodup
  have hhand : ∀ d a, (update pop c pc d).hand = some a →
      d = c ∧ l.node = a ∨ d ≠ c ∧ (pop d).hand = some a := by
    intro d a hd
    by_cases hdc : d = c
    · subst hdc
      rw [update_self, hpc] at hd
      exact Or.inl ⟨rfl, Option.some.inj hd⟩
    · rw [update_of_ne hdc] at hd
      exact Or.inr ⟨hdc, hd⟩
  constructor
  · simpa only [hm] using h.own_live
  · exact h.own_unique
  · intro q a hq k hk
    exact h.own_chain q a hq k (hmem k hk)
  · intro k hk
    rw [hm]
    exact h.chain_live k (hmem k hk)
  · exact hnodup.2
  · intro d a hd
    rw [hm]
    rcases hhand d a hd with ⟨-, rfl⟩ | ⟨-, hd⟩
    · obtain ⟨next, hnext⟩ := h.chain_live l hl
      exact ⟨_, hnext⟩
    · exact h.hand_live d a hd
  · intro d a hd q hq
    rcases hhand d a hd with ⟨-, rfl⟩ | ⟨-, hd⟩
    · exact h.own_chain q _ hq l hl rfl
    · exact h.hand_own d a hd q hq
  · intro d a hd k hk
    rcases hhand d a hd with ⟨-, rfl⟩ | ⟨-, hd⟩
    · intro hkl
      exact hnodup.1 (hkl ▸ List.mem_map_of_mem hk)
    · exact h.hand_chain d a hd k (hmem k hk)
  · intro d e a hd he
    rcases hhand d a hd with ⟨hdc, hla⟩ | ⟨-, hdold⟩ <;>
      rcases hhand e a he with ⟨hec, hla'⟩ | ⟨-, heold⟩
    · rw [hdc, hec]
    · exact absurd hla (h.hand_chain e a heold l hl)
    · exact absurd hla' (h.hand_chain d a hdold l hl)
    · exact h.hand_unique d e a hdold heold
  · intro a nd ha
    rw [hm] at ha
    exact h.live_used a nd ha
  · intro a ha
    rw [hm]
    exact h.taken_dead a ha
  · exact h.taken_nodup

/-- What the others have loaded from `head_` has gone with the oldest node, if it was linked. -/
theorem Seen.unlink (h : Seen m push pop (l :: rest) used) (hseen : pc.seen = none)
    (hnodup : ((l :: rest).map Linked.node).Nodup) :
    Seen m' push (update pop c pc) rest used := by
  constructor
  · intro d a hd
    exact h.used d a (obs_of_update hseen hd).2
  · intro d a hd
    exact h.own d a (obs_of_update hseen hd).2
  · intro d a hd k hk hka
    have hhead := h.head d a (obs_of_update hseen hd).2 k (List.mem_cons_of_mem l hk) hka
    obtain rfl : l = k := Option.some.inj hhead
    rw [List.map_cons, List.nodup_cons] at hnodup
    exact absurd (List.mem_map_of_mem hk) hnodup.1
  · intro d a b hd nd hnd
    rw [hm] at hnd
    have hne : PopPc.casHead a b ≠ pc := by
      rintro rfl
      cases hseen
    exact h.next d a b (pop_of_update hne hd).2 nd hnd

end Unlink

/-- The compare-exchange on `tail_` succeeds: the node is the only one. -/
theorem Inv.unlinkTail (h : Inv m push pop chain used taken) {c : C} {a : A}
    (hpc : pop c = .casTail a) (ht : m.tail_ = some a) :
    ∃ l, chain = [l] ∧
      Inv { m with tail_ := none } push (update pop c (.storeHead a)) [] used taken := by
  obtain ⟨l, hlast, rfl⟩ := h.linkage.tail_some a ht
  have hmem := List.mem_of_getLast? hlast
  -- the node is both the first and the last one
  have hhead := h.seen.head c _ (by rw [hpc]; rfl) l hmem rfl
  have hchain : chain = [l] := by
    have hnodup : chain.Nodup := h.owned.chain_nodup.of_map _
    cases chain with
    | nil => cases hhead
    | cons k rest =>
      obtain rfl : k = l := Option.some.inj hhead
      cases rest with
      | nil => rfl
      | cons j rest =>
        rw [List.getLast?_cons_cons] at hlast
        exact absurd (List.mem_of_getLast? hlast) (List.nodup_cons.mp hnodup).1
  subst hchain
  have hhead_ := h.linkage.head_cons l rfl
  have hnone := h.linkage.last l rfl
  refine ⟨l, rfl, h.owned.unlink (m := m) rfl rfl,
    h.seen.unlink (m := m) rfl rfl rfl h.owned.chain_nodup, ?_⟩
  constructor
  · simp
  · intro _ b
    show m.head_ = some b ↔ _
    rw [hhead_]
    constructor
    · intro hb
      obtain rfl := Option.some.inj hb
      exact ⟨c, update_self _ _ _⟩
    · rintro ⟨d, hd⟩
      by_cases hdc : d = c
      · subst hdc
        rw [update_self] at hd
        rw [PopPc.storeHead.inj hd]
      · rw [update_of_ne hdc] at hd
        exact absurd (h.linkage.storeHead d b hd).1 (by simp)
  · simp
  · intro _
    exact Or.inl rfl
  · intro q b hq
    obtain ⟨hnull, -⟩ := h.linkage.storeTail q b hq
    simp [ht] at hnull
  · intro d b hd
    by_cases hdc : d = c
    · subst hdc
      rw [update_self] at hd
      rw [← PopPc.storeHead.inj hd]
      exact ⟨rfl, hnone⟩
    · rw [update_of_ne hdc] at hd
      exact absurd (h.linkage.storeHead d b hd).1 (by simp)
  · intro j k hjk
    simp at hjk
  · simp
  · intro q b t hq
    obtain ⟨-, j, k, hjk, -⟩ := h.linkage.storeNext q b t hq
    simp at hjk

/-- The consumer of the only node clears `head_`. -/
theorem Inv.storeHead (h : Inv m push pop chain used taken) {c : C} {a : A}
    (hpc : pop c = .storeHead a) :
    Inv { m with head_ := none } push (update pop c (.take a)) chain used taken := by
  obtain ⟨hnil, hnone⟩ := h.linkage.storeHead c a hpc
  have hkeep : ∀ d, (update pop c (.take a) d).hand = (pop d).hand := by
    apply obs_update
    rw [hpc]
    rfl
  have hno : ∀ d b, update pop c (.take a) d ≠ .storeHead b := by
    intro d b hd
    obtain ⟨hdc, hd⟩ := pop_of_update (by simp) hd
    exact hdc (h.linkage.storeHead_unique h.owned hd hpc)
  refine ⟨h.owned.congr (fun _ => rfl) rfl hkeep, ?_, ?_⟩
  · constructor
    · intro d b hd
      exact h.seen.used d b (obs_of_update rfl hd).2
    · intro d b hd
      exact h.seen.own d b (obs_of_update rfl hd).2
    · intro d b hd
      exact h.seen.head d b (obs_of_update rfl hd).2
    · intro d b n hd
      exact h.seen.next d b n (pop_of_update (by simp) hd).2
  · obtain ⟨h1, h2, h3, h4, h5, h6, h7, h8, h9⟩ := h.linkage
    refine ⟨?_, ?_, h3, h4, h5, ?_, h7, h8, h9⟩
    · intro l hl
      simp [hnil] at hl
    · intro _ b
      apply iff_of_false
      · simp
      · rintro ⟨d, hd⟩
        exact hno d b hd
    · intro d b hd
      exact absurd hd (hno d b)

/-- The compare-exchange on `head_` succeeds: the second node becomes the first. -/
theorem Inv.unlinkHead (h : Inv m push pop chain used taken) {c : C} {a n : A}
    (hpc : pop c = .casHead a n) (ha : m.head_ = some a) :
    ∃ l rest, chain = l :: rest ∧
      Inv { m with head_ := some n } push (update pop c (.take a)) rest used taken := by
  rcases h.head_cases ha with ⟨l, rest, hchain, rfl⟩ | ⟨hnil, d, hd⟩
  · subst hchain
    obtain ⟨next, hnode⟩ := h.owned.chain_live l List.mem_cons_self
    obtain rfl : next = some n := h.seen.next c _ n hpc _ hnode
    have hnext : m.next l.node = some n := by simp [QueueMem.next, hnode]
    refine ⟨l, rest, rfl, h.owned.unlink (m := m) rfl rfl,
      h.seen.unlink (m := m) rfl rfl rfl h.owned.chain_nodup, ?_⟩
    cases rest with
    | nil => simp [h.linkage.last l rfl] at hnext
    | cons k rest =>
      -- the link that has been read cannot have changed since
      have hlk : (l :: k :: rest).Adjacent l k := by simp [List.adjacent_cons_iff]
      have hnk : n = k.node := by
        rcases h.linkage.links l k hlk with hlink | ⟨hnone, -⟩
        · exact Option.some.inj (hnext.symm.trans hlink)
        · simp [hnone] at hnext
      have hne : ∀ d b, pop d ≠ .storeHead b := by
        intro d b hd
        simpa using (h.linkage.storeHead d b hd).1
      constructor
      · intro j hj
        obtain rfl : k = j := by simpa using hj
        rw [hnk]
      · simp
      · intro t ht
        exact h.linkage.tail_some t ht
      · intro hnone
        rcases h.linkage.tail_none hnone with hnil | ⟨j, hj, -⟩
        · cases hnil
        · simp at hj
      · intro q b hq
        obtain ⟨-, x, hx⟩ := h.linkage.storeTail q b hq
        simp at hx
      · intro d b hd
        exact absurd (pop_of_update (by simp) hd).2 (hne d b)
      · intro i j hij
        exact h.linkage.links i j (List.adjacent_cons_iff.mpr (Or.inr hij))
      · intro j hj
        exact h.linkage.last j hj
      · intro q b t hq
        obtain ⟨hnone, i, j, hij, rfl, hj⟩ := h.linkage.storeNext q b t hq
        rcases List.adjacent_cons_iff.mp hij with ⟨rfl, -⟩ | hij
        · simp [hnone] at hnext
        · exact ⟨hnone, i, j, hij, rfl, hj⟩
  · -- the node about to be cleared from `head_` never had a successor
    exfalso
    obtain ⟨nd, hnd⟩ := h.owned.hand_live d a (by rw [hd]; rfl)
    have hnone := (h.linkage.storeHead d a hd).2
    have hsome := h.seen.next c a n hpc nd hnd
    simp [QueueMem.next, hnd, hsome] at hnone

/-! #### Deletion -/

section Take

variable [DecidableEq A] {c : C} {a : A}

omit [DecidableEq C] in
/-- What is live after a node has been deleted is another node. -/
theorem live_of_delete {b : A} {nd : Node A E} (hb : (withNode m a none).heap b = some nd) :
    b ≠ a ∧ m.heap b = some nd := by
  by_cases hba : b = a
  · subst hba
    simp [withNode] at hb
  · have hsame : (withNode m a none).heap b = m.heap b := update_of_ne hba _ _
    exact ⟨hba, hsame.symm.trans hb⟩

omit [DecidableEq C] [DecidableEq A] in
/-- No other consumer has the node in its hands. -/
theorem Owned.hand_ne (h : Owned m push pop chain used taken) (hhand : (pop c).hand = some a)
    {d : C} {b : A} (hdc : d ≠ c) (hd : (pop d).hand = some b) : b ≠ a := by
  rintro rfl
  exact hdc (h.hand_unique d c b hd hhand)

/-- The node goes from its consumer to the deleted ones. -/
theorem Owned.take (h : Owned m push pop chain used taken) (hhand : (pop c).hand = some a) :
    Owned (withNode m a none) push (update pop c .idle) chain used (taken ++ [a]) := by
  obtain ⟨nd, hnd⟩ := h.hand_live c a hhand
  have hother : ∀ b, b ≠ a → (withNode m a none).heap b = m.heap b :=
    fun b hb => update_of_ne hb _ _
  have hnode : ∀ l ∈ chain, l.node ≠ a := h.hand_chain c a hhand
  constructor
  · intro q b hq
    rw [hother b fun hba => h.hand_own c a hhand q (hba ▸ hq)]
    exact h.own_live q b hq
  · exact h.own_unique
  · exact h.own_chain
  · intro l hl
    rw [hother _ (hnode l hl)]
    exact h.chain_live l hl
  · exact h.chain_nodup
  · intro d b hd
    obtain ⟨hdc, hd⟩ := obs_of_update rfl hd
    rw [hother b (h.hand_ne hhand hdc hd)]
    exact h.hand_live d b hd
  · intro d b hd
    exact h.hand_own d b (obs_of_update rfl hd).2
  · intro d b hd
    exact h.hand_chain d b (obs_of_update rfl hd).2
  · intro d e b hd he
    exact h.hand_unique d e b (obs_of_update rfl hd).2 (obs_of_update rfl he).2
  · intro b nd' hb
    exact h.live_used b nd' (live_of_delete hb).2
  · intro b hb
    by_cases hba : b = a
    · subst hba
      exact ⟨h.live_used b nd hnd, update_self _ _ _⟩
    · have hmem : b ∈ taken := by simpa [hba] using hb
      rw [hother b hba]
      exact h.taken_dead b hmem
  · apply List.nodup_append.mpr
    refine ⟨h.taken_nodup, List.nodup_singleton _, ?_⟩
    -- a node that is deleted now was not deleted before
    rintro b hb b' hb' rfl
    obtain rfl := List.mem_singleton.mp hb'
    have hdead := (h.taken_dead b hb).2
    simp [hnd] at hdead

theorem Seen.take (h : Seen m push pop chain used) :
    Seen (withNode m a none) push (update pop c .idle) chain used := by
  constructor
  · intro d b hd
    exact h.used d b (obs_of_update rfl hd).2
  · intro d b hd
    exact h.own d b (obs_of_update rfl hd).2
  · intro d b hd
    exact h.head d b (obs_of_update rfl hd).2
  · intro d b n hd nd' hb
    exact h.next d b n (pop_of_update (by simp) hd).2 nd' (live_of_delete hb).2

/-- The node is not linked any more. -/
theorem Linkage.take (h : Linkage m push pop chain) (ho : Owned m push pop chain used taken)
    (hpc : pop c = .take a) :
    Linkage (withNode m a none) push (update pop c .idle) chain := by
  have hhand : (pop c).hand = some a := by rw [hpc]; rfl
  have hnext : ∀ l ∈ chain, (withNode m a none).next l.node = m.next l.node :=
    fun l hl => next_withNode_ne _ _ (ho.hand_chain c a hhand l hl)
  constructor
  · exact h.head_cons
  · intro hnil b
    show m.head_ = some b ↔ _
    rw [h.head_nil hnil b]
    constructor
    · rintro ⟨d, hd⟩
      have hdc : d ≠ c := by
        rintro rfl
        simp [hpc] at hd
      exact ⟨d, by rw [update_of_ne hdc, hd]⟩
    · rintro ⟨d, hd⟩
      exact ⟨d, (pop_of_update (by simp) hd).2⟩
  · exact h.tail_some
  · exact h.tail_none
  · exact h.storeTail
  · intro d b hd
    obtain ⟨hdc, hd⟩ := pop_of_update (by simp) hd
    rw [next_withNode_ne _ _ (ho.hand_ne hhand hdc (by rw [hd]; rfl))]
    exact h.storeHead d b hd
  · intro k l hkl
    rw [hnext k hkl.left_mem]
    exact h.links k l hkl
  · intro l hl
    rw [hnext l (List.mem_of_getLast? hl)]
    exact h.last l hl
  · intro q b t hq
    obtain ⟨hnone, k, l, hkl, rfl, hl⟩ := h.storeNext q b t hq
    exact ⟨by rw [hnext k hkl.left_mem, hnone], k, l, hkl, rfl, hl⟩

/-- The consumer moves the element out, deletes the node and returns. -/
theorem Inv.take (h : Inv m push pop chain used taken) (hpc : pop c = .take a) :
    Inv (withNode m a none) push (update pop c .idle) chain used (taken ++ [a]) := by
  have hhand : (pop c).hand = some a := by rw [hpc]; rfl
  exact ⟨h.owned.take hhand, h.seen.take, h.linkage.take h.owned hpc⟩

end Take

end Consumer

end FreshQueue

end Lizlib
