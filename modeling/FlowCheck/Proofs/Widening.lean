/-
  FlowCheck.Proofs.Widening — runs that end because loop heads widen.

  If operands are placed in order and widening stabilises, every analysis ends by itself, whatever
  its transfer function (`InOrder.converges`). A number that has been widened has become any number
  and is never widened again, so counting ends; groups of constants have finite height.
-/

import FlowCheck.Proofs.Convergence

namespace FlowCheck

namespace Count

def height : Count → Nat
  | .bottom => 0
  | .at _ => 1
  | .top => 2

theorem height_le (a : Count) : height a ≤ 2 := by cases a <;> simp [height]

theorem height_lt_widen (a b : Count) (below : Domain.below a b = true) (other : Domain.widen a b ≠ a) :
    height a < height (Domain.widen a b) := by
  have joined : join a b = b := of_decide_eq_true below
  rcases widen_cases a b with given | kept
  · have wide : Domain.widen a b = .top := given
    rw [wide] at other ⊢
    cases a with
    | top => exact absurd rfl other
    | _ => simp [height]
  · have same : Domain.widen a b = b := kept.trans joined
    rw [same] at other ⊢
    cases a with
    | bottom =>
      cases b with
      | bottom => exact absurd rfl other
      | _ => simp [height]
    | «at» m =>
      cases b with
      | bottom => cases joined
      | «at» n =>
        -- the larger number would have been given up
        have grown : ¬m < n := fun lt => by simp [widen, lt, join] at kept
        have le : max m n = n := Count.at.inj joined
        rw [← UInt32.toNat_inj, toNat_max] at le
        rw [UInt32.lt_iff_toNat_lt] at grown
        exact absurd (congrArg Count.at (UInt32.toNat_inj.mp (by omega))) other
      | top => simp [height]
    | top =>
      cases b with
      | top => exact absurd rfl other
      | _ => cases joined

theorem wideningStabilises : WideningStabilises Count :=
  wideningStabilises_of_rank height 2 height_le height_lt_widen

end Count

/-- Where operands are in order and widening stabilises, every run ends by itself if its cap is
large enough; counting and the usage analysis are cases of this. -/
theorem Flowgraph.InOrder.converges {g : Flowgraph} (ordered : g.InOrder) (widenDelay : Nat) :
    (∀ (V F : Type) [Domain V] [DecidableEq V] [LawfulDomain V] (τ : Transfer V F) (initial : Store V),
        WideningStabilises V → τ.Local g → τ.Keeps Store.Canonical g → initial.Canonical →
          g.Converges τ initial widenDelay) ∧
      (∀ initial : Store Count, initial.Canonical → g.Converges Counting.transfer initial widenDelay) ∧
      ∀ (s : Constants.Scope) (initial : Store Constants.TaggedValue), initial.Canonical →
        g.Converges s.transfer initial widenDelay := by
  refine ⟨fun V F _ _ _ τ initial stable hlocal hτ hi => ?_, fun initial hi => ?_, fun s initial hi => ?_⟩
  · exact converges_of_inOrder stable hlocal hτ hi ordered widenDelay
  · exact converges_of_inOrder Count.wideningStabilises (Counting.transfer_local g)
      (Counting.transfer_keepsCanonical g) hi ordered widenDelay
  · exact converges_of_inOrder Constants.finiteHeight_taggedValue.wideningStabilises (s.transfer_local g)
      (s.transfer_keepsCanonical g) hi ordered widenDelay

/-- Sets a local to one, then adds one to it in a loop. -/
def countingLoop : Flowgraph where
  blocks := #[{ id := ⟨0⟩, role := .entry, nodes := [⟨0⟩, ⟨1⟩] }, { id := ⟨1⟩, nodes := [⟨2⟩, ⟨3⟩, ⟨4⟩] }]
  nodes := #[{ id := ⟨0⟩, operation := .literal (.int 1) }, { id := ⟨1⟩, operation := .assign (.local "i") ⟨0⟩ },
    { id := ⟨2⟩, operation := .read (.local "i") }, { id := ⟨3⟩, operation := .binary .add ⟨2⟩ ⟨0⟩ },
    { id := ⟨4⟩, operation := .assign (.local "i") ⟨3⟩ }]
  edges := [⟨⟨0⟩, ⟨1⟩, .normal⟩, ⟨⟨1⟩, ⟨1⟩, .normal⟩]
  checked := by decide

theorem countingLoop_converges :
    countingLoop.InOrder ∧ countingLoop.Converges Counting.transfer .blank 3 ∧
      countingLoop.Converges (Constants.Scope.transfer ⟨.empty, "D"⟩) .blank 3 := by
  have ordered : countingLoop.InOrder := by
    rw [Flowgraph.inOrder_iff_order, show countingLoop.reversePostorder = [⟨0⟩, ⟨1⟩] by cbv]
    decide
  obtain ⟨-, counting, usage⟩ := Flowgraph.InOrder.converges ordered 3
  exact ⟨ordered, counting .blank Store.canonical_blank, usage _ .blank Store.canonical_blank⟩

end FlowCheck
