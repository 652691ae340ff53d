import Mathlib.Logic.Relation

/-!
# Who waits for whom

A vertex gets on if it is free, or waits for one that gets on: the chain of those it waits for ends,
and not in a circle.  `GetsOn.map` carries this over from one graph to another; `GetsOn.avoid` does so
for a vertex whose chain does not meet the one that has begun to wait.
-/

variable {V : Type*}

/-- The vertex is free, or waits for one that gets on. -/
inductive GetsOn (free : V → Prop) (waits : V → V → Prop) : V → Prop
  | free {v : V} (h : free v) : GetsOn free waits v
  | waits {v u : V} (h : waits v u) (hu : GetsOn free waits u) : GetsOn free waits v

variable {free free' : V → Prop} {waits waits' : V → V → Prop} {v w : V}

/-- **Change of the graph**: the free vertices get on in the new graph, and so does whoever waits for
one that does. -/
theorem GetsOn.map (h : GetsOn free waits v) (hfree : ∀ v, free v → GetsOn free' waits' v)
    (hwaits : ∀ v u, waits v u → GetsOn free' waits' u → GetsOn free' waits' v) :
    GetsOn free' waits' v := by
  induction h with
  | free h => exact hfree _ h
  | waits h _ ih => exact hwaits _ _ h ih

/-- **A vertex begins to wait**: only those whose chain meets it are concerned. -/
theorem GetsOn.avoid (h : GetsOn free waits v) (hw : ¬ Relation.ReflTransGen waits v w)
    (hfree : ∀ v, v ≠ w → free v → free' v)
    (hwaits : ∀ v u, v ≠ w → waits v u → waits' v u) : GetsOn free' waits' v := by
  induction h with
  | @free v h =>
    have hne : v ≠ w := by
      rintro rfl
      exact hw .refl
    exact .free (hfree v hne h)
  | @waits v u h _ ih =>
    have hne : v ≠ w := by
      rintro rfl
      exact hw .refl
    apply GetsOn.waits (hwaits v u hne h)
    apply ih
    intro hu
    exact hw (.head h hu)
