/-
  FlowCheck.Proofs.Assemblies — what comes of a sequence of calls to an assembly.

  A client makes its calls one after the other; the only one that may go wrong is a push into a block
  that does not exist (`Call`, `performAll`). The log of calls and answers says what the assembly
  contains: the nodes pushed, in order, each in the block it was pushed into (`Filed`), the edges asked
  for, and the two exits as they were handed out (`Kept`). One call keeps this, whichever it is
  (`Kept.perform`), and so do all of them (`kept_performAll`), as long as the ids do not run out.

  So labels are positions, listings are of nodes that exist, and no node is listed twice: when `build`
  refuses, it is for what the client made of the ids, an operand, an edge or a branch
  (`Kept.isOfUse_of_violates`).
-/

import FlowCheck.Graph.Assembly
import FlowCheck.Proofs.WellFormed
import Mathlib.Algebra.Group.Nat.Defs

namespace FlowCheck

/-- The defects that are about how nodes and blocks are used: operands, edges and branches. -/
def Defect.isOfUse : Defect → Bool
  | .unknownOperand .. | .unknownBlock _ | .repeatedEdge _ | .loneBranch _ | .mixedSuccessors _ | .notACondition _ =>
    true
  | _ => false

theorem BlockId.index_ofIndex {i : Nat} (room : i < 2 ^ 32) : (ofIndex i).index = i := by
  simpa [index, ofIndex] using Nat.mod_eq_of_lt room

theorem NodeId.index_ofIndex {i : Nat} (room : i < 2 ^ 32) : (ofIndex i).index = i := by
  simpa [index, ofIndex] using Nat.mod_eq_of_lt room

namespace Assembly

/-! ## Calls -/

inductive Call where
  | entry
  | block
  | exit
  | exceptionalExit
  | push (block : BlockId) (operation : Operation) (location : Location := .unknown)
  | goto (source target : BlockId)
  | branch (source whenTrue whenFalse : BlockId)
  | exceptional (source handler : BlockId)
  | edge (source target : BlockId) (kind : EdgeKind)
  deriving DecidableEq, Repr

inductive Answer where
  | block (b : BlockId)
  | node (n : NodeId)
  | done
  deriving DecidableEq, Repr

def Call.pushedInto? : Call → Option BlockId
  | .push b .. => some b
  | _ => none

def Call.edges : Call → List Edge
  | .goto source target => [⟨source, target, .normal⟩]
  | .branch source whenTrue whenFalse => [⟨source, whenTrue, .whenTrue⟩, ⟨source, whenFalse, .whenFalse⟩]
  | .exceptional source handler => [⟨source, handler, .exceptional⟩]
  | .edge source target kind => [⟨source, target, kind⟩]
  | _ => []

def perform (a : Assembly) : Call → Option (Answer × Assembly)
  | .entry => some (.block a.entry, a)
  | .block => some (.block a.addBlock.1, a.addBlock.2)
  | .exit => some (.block a.exitBlock.1, a.exitBlock.2)
  | .exceptionalExit => some (.block a.exceptionalExitBlock.1, a.exceptionalExitBlock.2)
  | .push b operation location => (a.push? b operation location).map fun (n, a) => (.node n, a)
  | .goto source target => some (.done, a.addEdge source target .normal)
  | .branch source whenTrue whenFalse => some (.done, a.branch source whenTrue whenFalse)
  | .exceptional source handler => some (.done, a.addEdge source handler .exceptional)
  | .edge source target kind => some (.done, a.addEdge source target kind)

def performAll (a : Assembly) : List Call → List Answer × Assembly
  | [] => ([], a)
  | call :: rest =>
    match a.perform call with
    | none => ([], a)
    | some (answer, a) => (answer :: (performAll a rest).1, (performAll a rest).2)

def pushed? : Call × Answer → Option (BlockId × Node)
  | (.push b operation location, .node n) => some (b, { id := n, operation, location })
  | _ => none

def pushed (log : List (Call × Answer)) : List (BlockId × Node) := log.filterMap pushed?

end Assembly

/-! ## Drafts that hold what was pushed -/

namespace Draft

def withRole (d : Draft) (r : BlockRole) : List BlockId := (d.blocks.toList.filter (·.role == r)).map (·.id)

def addBlock (d : Draft) (role : BlockRole) : Draft :=
  { d with blocks := d.blocks.push { id := .ofIndex d.blocks.size, role } }

def addNode (d : Draft) (b : BlockId) (operation : Operation) (location : Location) : Draft :=
  let id := NodeId.ofIndex d.nodes.size
  { d with
    nodes := d.nodes.push { id, operation, location }
    blocks := d.blocks.modify b.index fun B => { B with nodes := B.nodes ++ [id] } }

/-- The draft has these nodes, listed in these blocks; ids are positions. -/
structure Filed (placed : List (BlockId × Node)) (d : Draft) : Prop where
  labelled : ∀ i (B : Block), d.blocks[i]? = some B → B.id.index = i
  numbered : ∀ i (node : Node), d.nodes[i]? = some node → node.id.index = i
  nodes : d.nodes.toList = placed.map (·.2)
  blocks : ∀ e ∈ placed, d.hasBlock e.1 = true
  listed : ∀ B ∈ d.blocks, B.nodes = (placed.filter (·.1 = B.id)).map (·.2.id)

variable {d : Draft} {placed : List (BlockId × Node)} {b : BlockId} {operation : Operation} {location : Location}

theorem Filed.addBlock (h : d.Filed placed) (room : d.blocks.size < 2 ^ 32) (role : BlockRole) :
    (d.addBlock role).Filed placed where
  labelled i B hB := by
    rw [Draft.addBlock, Array.getElem?_push] at hB
    split at hB
    · rename_i last
      cases hB
      rw [last]
      exact BlockId.index_ofIndex room
    · exact h.labelled i B hB
  numbered := h.numbered
  nodes := h.nodes
  blocks e he := by
    have known := h.blocks e he
    simp only [hasBlock, decide_eq_true_eq, Draft.addBlock, Array.size_push] at known ⊢
    omega
  listed B hB := by
    rcases Array.mem_push.mp hB with hB | rfl
    · exact h.listed B hB
    · refine (List.map_eq_nil_iff.mpr (List.filter_eq_nil_iff.mpr fun e he into => ?_)).symm
      have known := h.blocks e he
      rw [of_decide_eq_true into, hasBlock, BlockId.index_ofIndex room] at known
      simp at known

theorem Filed.addNode (h : d.Filed placed) (room : d.nodes.size < 2 ^ 32) (there : d.hasBlock b = true) :
    (d.addNode b operation location).Filed
      (placed ++ [(b, { id := .ofIndex d.nodes.size, operation, location })]) where
  labelled i B hB := by
    rw [Draft.addNode, Array.getElem?_modify] at hB
    split at hB
    · obtain ⟨B', hB', rfl⟩ := Option.map_eq_some_iff.mp hB
      exact h.labelled i B' hB'
    · exact h.labelled i B hB
  numbered i node hnode := by
    rw [Draft.addNode, Array.getElem?_push] at hnode
    split at hnode
    · rename_i last
      cases hnode
      rw [last]
      exact NodeId.index_ofIndex room
    · exact h.numbered i node hnode
  nodes := by simp [Draft.addNode, h.nodes]
  blocks e he := by
    have size : (d.addNode b operation location).hasBlock e.1 = d.hasBlock e.1 := by
      simp [Draft.addNode, hasBlock]
    rw [size]
    rcases List.mem_append.mp he with he | he
    · exact h.blocks e he
    · rw [List.mem_singleton.mp he]
      exact there
  listed B hB := by
    obtain ⟨i, hB⟩ := Array.mem_iff_getElem?.mp hB
    rw [Draft.addNode, Array.getElem?_modify] at hB
    rw [List.filter_append, List.map_append]
    split at hB
    · rename_i own
      obtain ⟨B', hB', rfl⟩ := Option.map_eq_some_iff.mp hB
      have into : b = B'.id := BlockId.index_inj.mp (own.trans (h.labelled i B' hB').symm)
      simp [into, h.listed B' (Array.mem_of_getElem? hB')]
    · rename_i other
      have apart : b ≠ B.id := fun e => other (by rw [e]; exact h.labelled i B hB)
      simp [apart, h.listed B (Array.mem_of_getElem? hB)]

theorem Filed.hasBlock_of_role (h : d.Filed placed) {r : BlockRole} (mem : b ∈ d.withRole r) : d.hasBlock b = true := by
  obtain ⟨B, hB, rfl⟩ := List.mem_map.mp mem
  obtain ⟨i, hB⟩ := List.getElem?_of_mem (List.mem_filter.mp hB).1
  rw [Array.getElem?_toList] at hB
  rw [hasBlock, h.labelled i B hB]
  exact decide_eq_true (Array.getElem?_eq_some_iff.mp hB).1

theorem Filed.nodup_ids (h : d.Filed placed) : (placed.map (·.2.id)).Nodup := by
  have positions : d.nodes.toList.map (·.id.index) = List.range d.nodes.size := by
    refine List.ext_getElem (by simp) fun i hi _ => ?_
    have hi : i < d.nodes.size := by simpa using hi
    simpa using h.numbered i _ (Array.getElem?_eq_getElem hi)
  rw [h.nodes, List.map_map] at positions
  have distinct : (placed.map fun e => e.2.id.index).Nodup := positions ▸ List.nodup_range
  exact List.Nodup.of_map NodeId.index (by rwa [List.map_map])

/-- A block lists the nodes that were pushed into it. -/
theorem Filed.mem_nodes (h : d.Filed placed) {B : Block} (hB : B ∈ d.blocks) {n : NodeId} :
    n ∈ B.nodes ↔ ∃ e ∈ placed, e.1 = B.id ∧ e.2.id = n := by
  rw [h.listed B hB]
  simp [and_assoc]

/-- No node is listed twice, in two blocks or in one. -/
theorem Filed.once (h : d.Filed placed) : (d.blocks.toList.flatMap (·.nodes)).Nodup := by
  refine List.nodup_flatMap.mpr ⟨fun B hB => ?_, ?_⟩
  · rw [h.listed B (Array.mem_toList_iff.mp hB)]
    exact h.nodup_ids.sublist (List.filter_sublist.map _)
  · refine List.pairwise_iff_getElem.mpr fun i j hi hj lt => ?_
    intro n hn hn'
    have hB : d.blocks[i]? = some d.blocks.toList[i] := by rw [← Array.getElem?_toList, List.getElem?_eq_getElem hi]
    have hC : d.blocks[j]? = some d.blocks.toList[j] := by rw [← Array.getElem?_toList, List.getElem?_eq_getElem hj]
    obtain ⟨e, he, into, rfl⟩ := (h.mem_nodes (Array.mem_of_getElem? hB)).mp hn
    obtain ⟨e', he', into', same⟩ := (h.mem_nodes (Array.mem_of_getElem? hC)).mp hn'
    rw [List.inj_on_of_nodup_map h.nodup_ids he' he same, into] at into'
    have := congrArg BlockId.index into'
    rw [h.labelled i _ hB, h.labelled j _ hC] at this
    omega

theorem withRole_addBlock (d : Draft) (role r : BlockRole) :
    (d.addBlock role).withRole r = d.withRole r ++ if role = r then [.ofIndex d.blocks.size] else [] := by
  unfold withRole Draft.addBlock
  by_cases same : role = r <;> simp [List.filter_append, same]

/-- Roles are those of the blocks, whatever these list. -/
theorem withRole_addNode (d : Draft) (r : BlockRole) : (d.addNode b operation location).withRole r = d.withRole r := by
  have outline : ∀ d : Draft, d.withRole r =
      ((d.blocks.toList.map fun B => (B.role, B.id)).filter (·.1 == r)).map (·.2) := fun d => by
    simp [withRole, List.filter_map, Function.comp_def]
  have same : (d.addNode b operation location).blocks.toList.map (fun B => (B.role, B.id)) =
      d.blocks.toList.map fun B => (B.role, B.id) := by
    refine List.ext_getElem? fun i => ?_
    rw [List.getElem?_map, List.getElem?_map, Array.getElem?_toList, Array.getElem?_toList, Draft.addNode,
      Array.getElem?_modify]
    split
    · rw [Option.map_map]
      rfl
    · rfl
  rw [outline, outline, same]

end Draft

namespace Assembly

variable {a a' : Assembly} {call : Call} {answer : Answer} {log : List (Call × Answer)}

/-! ## One call -/

def next (a : Assembly) : BlockId := .ofIndex a.draft.blocks.size

inductive Effect (a : Assembly) : Call → Answer → Assembly → Prop where
  | entry : Effect a .entry (.block a.draft.entry) a
  | block : Effect a .block (.block a.next) { a with draft := a.draft.addBlock .regular }
  | firstExit (none_ : a.exit = none) :
      Effect a .exit (.block a.next) { a with draft := a.draft.addBlock .exit, exit := some a.next }
  | sameExit {b : BlockId} (some_ : a.exit = some b) : Effect a .exit (.block b) a
  | firstExceptionalExit (none_ : a.exceptionalExit = none) :
      Effect a .exceptionalExit (.block a.next)
        { a with draft := a.draft.addBlock .exceptionalExit, exceptionalExit := some a.next }
  | sameExceptionalExit {b : BlockId} (some_ : a.exceptionalExit = some b) : Effect a .exceptionalExit (.block b) a
  | push {b : BlockId} {operation : Operation} {location : Location} (there : a.draft.hasBlock b = true) :
      Effect a (.push b operation location) (.node (.ofIndex a.draft.nodes.size))
        { a with draft := a.draft.addNode b operation location }
  | edges (call : Call) (some_ : call.edges ≠ []) :
      Effect a call .done { a with draft := { a.draft with edges := a.draft.edges ++ call.edges } }

theorem perform_effect (done : a.perform call = some (answer, a')) : Effect a call answer a' := by
  cases call with
  | entry => cases done; exact .entry
  | block => cases done; exact .block
  | exit =>
    unfold perform exitBlock at done
    cases known : a.exit with
    | none => rw [known] at done; cases done; exact .firstExit known
    | some b => rw [known] at done; cases done; exact .sameExit known
  | exceptionalExit =>
    unfold perform exceptionalExitBlock at done
    cases known : a.exceptionalExit with
    | none => rw [known] at done; cases done; exact .firstExceptionalExit known
    | some b => rw [known] at done; cases done; exact .sameExceptionalExit known
  | push b operation location =>
    by_cases there : a.draft.hasBlock b = true
    · rw [perform, push?, if_pos there] at done
      cases done
      exact .push there
    · rw [perform, push?, if_neg there] at done
      cases done
  | goto | exceptional | edge =>
    cases done
    exact .edges _ (by simp [Call.edges])
  | branch source whenTrue whenFalse =>
    cases done
    have twice := Effect.edges (a := a) (.branch source whenTrue whenFalse) (by simp [Call.edges])
    simpa [branch, addEdge, Call.edges] using twice

/-- Only the blocks that were handed out have a role. -/
structure Shared (a : Assembly) : Prop where
  entry : a.draft.entry = ⟨0⟩
  entries : a.draft.withRole .entry = [⟨0⟩]
  exits : a.draft.withRole .exit = a.exit.toList
  exceptionalExits : a.draft.withRole .exceptionalExit = a.exceptionalExit.toList

def Answers (a : Assembly) : Call → Answer → Prop
  | .exit, answer => ∃ b ∈ a.exit, answer = .block b
  | .exceptionalExit, answer => ∃ b ∈ a.exceptionalExit, answer = .block b
  | .push .., answer => ∃ n, answer = .node n
  | _, _ => True

/-- What the log of all calls says of the assembly. -/
structure Kept (log : List (Call × Answer)) (a : Assembly) : Prop where
  shared : a.Shared
  filed : a.draft.Filed (pushed log)
  edges : a.draft.edges = log.flatMap (·.1.edges)
  answered : ∀ e ∈ log, a.Answers e.1 e.2
  known : ∀ e ∈ log, ∀ b, e.2 = .block b → a.draft.hasBlock b = true

/-- An assembly grows, and keeps the exits it has. -/
structure Grown (a a' : Assembly) : Prop where
  blocks : a.draft.blocks.size ≤ a'.draft.blocks.size
  nodes : a.draft.nodes.size ≤ a'.draft.nodes.size
  exit : ∀ b ∈ a.exit, a'.exit = some b
  exceptionalExit : ∀ b ∈ a.exceptionalExit, a'.exceptionalExit = some b

theorem Grown.refl (a : Assembly) : Grown a a := ⟨Nat.le_refl _, Nat.le_refl _, fun _ h => h, fun _ h => h⟩

theorem Grown.trans {a b c : Assembly} (h : Grown a b) (h' : Grown b c) : Grown a c where
  blocks := Nat.le_trans h.blocks h'.blocks
  nodes := Nat.le_trans h.nodes h'.nodes
  exit e he := h'.exit e (h.exit e he)
  exceptionalExit e he := h'.exceptionalExit e (h.exceptionalExit e he)

theorem Grown.hasBlock (h : Grown a a') {b : BlockId} (there : a.draft.hasBlock b = true) :
    a'.draft.hasBlock b = true := by
  have := h.blocks
  simp only [Draft.hasBlock, decide_eq_true_eq] at there ⊢
  omega

theorem Grown.answers (h : Grown a a') (answers : a.Answers call answer) : a'.Answers call answer := by
  cases call with
  | exit =>
    obtain ⟨b, hb, rfl⟩ := answers
    exact ⟨b, h.exit b hb, rfl⟩
  | exceptionalExit =>
    obtain ⟨b, hb, rfl⟩ := answers
    exact ⟨b, h.exceptionalExit b hb, rfl⟩
  | _ => exact answers

theorem Effect.grown (h : Effect a call answer a') : Grown a a' := by
  cases h with
  | entry | sameExit | sameExceptionalExit => exact .refl a
  | edges => exact ⟨Nat.le_refl _, Nat.le_refl _, fun _ h => h, fun _ h => h⟩
  | block => exact ⟨by simp [Draft.addBlock], Nat.le_refl _, fun _ h => h, fun _ h => h⟩
  | firstExit none_ =>
    exact ⟨by simp [Draft.addBlock], Nat.le_refl _, by simp [none_], fun _ h => h⟩
  | firstExceptionalExit none_ =>
    exact ⟨by simp [Draft.addBlock], Nat.le_refl _, fun _ h => h, by simp [none_]⟩
  | push => exact ⟨by simp [Draft.addNode], by simp [Draft.addNode], fun _ h => h, fun _ h => h⟩

theorem Shared.effect (h : a.Shared) (done : Effect a call answer a') : a'.Shared := by
  obtain ⟨entry, entries, exits, exceptionalExits⟩ := h
  cases done with
  | entry | sameExit | sameExceptionalExit | edges => exact ⟨entry, entries, exits, exceptionalExits⟩
  | push =>
    refine ⟨entry, ?_, ?_, ?_⟩ <;> rw [Draft.withRole_addNode]
    · exact entries
    · exact exits
    · exact exceptionalExits
  | block =>
    refine ⟨entry, ?_, ?_, ?_⟩ <;> rw [Draft.withRole_addBlock, if_neg (by decide), List.append_nil]
    · exact entries
    · exact exits
    · exact exceptionalExits
  | firstExit none_ =>
    rw [none_] at exits
    refine ⟨entry, ?_, ?_, ?_⟩ <;> rw [Draft.withRole_addBlock]
    · simpa using entries
    · simp [exits, next]
    · simpa using exceptionalExits
  | firstExceptionalExit none_ =>
    rw [none_] at exceptionalExits
    refine ⟨entry, ?_, ?_, ?_⟩ <;> rw [Draft.withRole_addBlock]
    · simpa using entries
    · simpa using exits
    · simp [exceptionalExits, next]

theorem pushed_snoc (log : List (Call × Answer)) (e : Call × Answer) :
    pushed (log ++ [e]) = pushed log ++ (pushed? e).toList := by
  unfold pushed
  rw [List.filterMap_append]
  cases h : pushed? e <;> simp [h]

theorem Effect.filed (done : Effect a call answer a') (h : a.draft.Filed (pushed log))
    (blocks : a.draft.blocks.size < 2 ^ 32) (nodes : a.draft.nodes.size < 2 ^ 32) :
    a'.draft.Filed (pushed (log ++ [(call, answer)])) := by
  rw [pushed_snoc]
  cases done with
  | push there => exact h.addNode nodes there
  | entry | sameExit | sameExceptionalExit => exact (List.append_nil _).symm ▸ h
  | block | firstExit | firstExceptionalExit => exact (List.append_nil _).symm ▸ h.addBlock blocks _
  | edges =>
    have none_ : pushed? (call, Answer.done) = none := by cases call <;> rfl
    rw [none_, Option.toList_none, List.append_nil]
    exact ⟨h.labelled, h.numbered, h.nodes, h.blocks, h.listed⟩

theorem Effect.edges_eq (done : Effect a call answer a') : a'.draft.edges = a.draft.edges ++ call.edges := by
  cases done with
  | edges => rfl
  | _ => exact (List.append_nil _).symm

theorem Effect.answers (done : Effect a call answer a') : a'.Answers call answer := by
  cases done with
  | firstExit | firstExceptionalExit => exact ⟨_, rfl, rfl⟩
  | sameExit some_ | sameExceptionalExit some_ => exact ⟨_, some_, rfl⟩
  | push => exact ⟨_, rfl⟩
  | entry | block => trivial
  | edges call some_ =>
    cases call with
    | exit | exceptionalExit | push => exact absurd rfl some_
    | _ => trivial

/-- A block that is handed out is there. -/
theorem Effect.known (done : Effect a call answer a') (shared : a.Shared) (filed : a.draft.Filed (pushed log))
    (room : a.draft.blocks.size < 2 ^ 32) (b : BlockId) (handed : answer = .block b) : a'.draft.hasBlock b = true := by
  have new (role : BlockRole) : (a.draft.addBlock role).hasBlock a.next = true := by
    simp [Draft.hasBlock, next, BlockId.index_ofIndex room, Draft.addBlock]
  cases done with
  | entry =>
    cases handed
    exact filed.hasBlock_of_role (r := .entry) (by simp [shared.entries, shared.entry])
  | block | firstExit | firstExceptionalExit => cases handed; exact new _
  | sameExit some_ => cases handed; exact filed.hasBlock_of_role (r := .exit) (by simp [shared.exits, some_])
  | sameExceptionalExit some_ =>
    cases handed
    exact filed.hasBlock_of_role (r := .exceptionalExit) (by simp [shared.exceptionalExits, some_])
  | push | edges => cases handed

/-- Whatever a call does, the log goes on telling what the assembly contains. -/
theorem Kept.effect (h : Kept log a) (done : Effect a call answer a') (blocks : a'.draft.blocks.size < 2 ^ 32)
    (nodes : a'.draft.nodes.size < 2 ^ 32) : Kept (log ++ [(call, answer)]) a' where
  shared := h.shared.effect done
  filed := done.filed h.filed (Nat.lt_of_le_of_lt done.grown.blocks blocks)
    (Nat.lt_of_le_of_lt done.grown.nodes nodes)
  edges := by rw [done.edges_eq, h.edges, List.flatMap_append, List.flatMap_singleton]
  answered e he := by
    rcases List.mem_append.mp he with he | he
    · exact done.grown.answers (h.answered e he)
    · rw [List.mem_singleton.mp he]
      exact done.answers
  known e he b hb := by
    rcases List.mem_append.mp he with he | he
    · exact done.grown.hasBlock (h.known e he b hb)
    · rw [List.mem_singleton.mp he] at hb
      exact done.known h.shared h.filed (Nat.lt_of_le_of_lt done.grown.blocks blocks) b hb

/-! ## All calls -/

theorem kept_start (name : String) : Kept [] (start name) where
  shared := ⟨rfl, rfl, rfl, rfl⟩
  filed := by
    refine ⟨fun i B hB => ?_, fun i node hnode => ?_, rfl, List.forall_mem_nil _, fun B hB => ?_⟩
    · obtain ⟨hi, rfl⟩ := Array.getElem?_eq_some_iff.mp hB
      have first : i = 0 := by simpa [start] using hi
      subst first
      rfl
    · cases hnode
    · obtain rfl := List.mem_singleton.mp (Array.mem_toList_iff.mpr hB)
      rfl
  edges := rfl
  answered _ he := nomatch he
  known _ he := nomatch he

theorem performAll_grown (calls : List Call) (a : Assembly) : Grown a (a.performAll calls).2 := by
  induction calls generalizing a with
  | nil => exact .refl a
  | cons call rest ih =>
    unfold performAll
    cases done : a.perform call with
    | none => exact .refl a
    | some result => exact (perform_effect done).grown.trans (ih result.2)

/-- A push into a block that is there goes well, and so does every other call. -/
theorem exists_perform (there : ∀ b ∈ call.pushedInto?, a.draft.hasBlock b = true) :
    ∃ answer a', a.perform call = some (answer, a') := by
  cases call with
  | push b operation location =>
    rw [perform, push?, if_pos (there b rfl)]
    exact ⟨_, _, rfl⟩
  | _ => exact ⟨_, _, rfl⟩

/-- If every push goes into a block that was handed out before, all calls go well. -/
theorem kept_performAll {calls : List Call} (h : Kept log a)
    (handed : ∀ k (hk : k < calls.length), ∀ b ∈ calls[k].pushedInto?,
      (∃ e ∈ log, e.2 = .block b) ∨ .block b ∈ (a.performAll (calls.take k)).1)
    (blocks : (a.performAll calls).2.draft.blocks.size < 2 ^ 32)
    (nodes : (a.performAll calls).2.draft.nodes.size < 2 ^ 32) :
    (a.performAll calls).1.length = calls.length ∧
      Kept (log ++ calls.zip (a.performAll calls).1) (a.performAll calls).2 := by
  induction calls generalizing log a with
  | nil => exact ⟨rfl, (List.append_nil log).symm ▸ h⟩
  | cons call rest ih =>
    have there : ∀ b ∈ call.pushedInto?, a.draft.hasBlock b = true := fun b hb => by
      rcases handed 0 (Nat.zero_lt_succ _) b hb with ⟨e, he, told⟩ | told
      · exact h.known e he b told
      · cases told
    obtain ⟨answer, a', done⟩ := exists_perform there
    have all (l : List Call) : a.performAll (call :: l) = (answer :: (a'.performAll l).1, (a'.performAll l).2) := by
      rw [performAll, done]
    rw [all] at blocks nodes ⊢
    have later := performAll_grown rest a'
    have kept := h.effect (perform_effect done) (Nat.lt_of_le_of_lt later.blocks blocks)
      (Nat.lt_of_le_of_lt later.nodes nodes)
    have rest := ih kept (fun k hk b hb => ?_) blocks nodes
    · refine ⟨congrArg (· + 1) rest.1, ?_⟩
      simpa using rest.2
    · rcases handed (k + 1) (Nat.succ_lt_succ hk) b hb with ⟨e, he, told⟩ | told
      · exact .inl ⟨e, List.mem_append_left _ he, told⟩
      · rw [List.take_succ_cons, all] at told
        rcases List.mem_cons.mp told with told | told
        · exact .inl ⟨(call, answer), by simp, told.symm⟩
        · exact .inr told

/-! ## Building -/

/-- Whatever is wrong with an assembly is about the use of its nodes and blocks. -/
theorem Kept.isOfUse_of_violates (h : Kept log a) {e : Defect} (violated : a.draft.Violates e) : e.isOfUse = true := by
  have filed := h.filed
  have entry : a.draft.hasBlock ⟨0⟩ = true := filed.hasBlock_of_role (r := .entry) (by simp [h.shared.entries])
  cases e with
  | unknownOperand | unknownBlock | repeatedEdge | loneBranch | mixedSuccessors | notACondition => rfl
  | empty =>
    have empty : a.draft.blocks = #[] := violated
    simp [Draft.hasBlock, empty] at entry
  | missingEntry b =>
    obtain ⟨rfl, out⟩ := violated
    rw [h.shared.entry] at out
    simp only [Draft.hasBlock, decide_eq_true_eq] at entry
    omega
  | blockMislabelled i b =>
    obtain ⟨B, hB, rfl, wrong⟩ := violated
    exact absurd (filed.labelled i B hB) wrong
  | nodeMislabelled i n =>
    obtain ⟨node, hnode, rfl, wrong⟩ := violated
    exact absurd (filed.numbered i node hnode) wrong
  | unknownNode b n =>
    obtain ⟨⟨B, hB, -, hn⟩, out⟩ := violated
    obtain ⟨e, he, -, rfl⟩ := (filed.mem_nodes hB).mp hn
    have there : e.2 ∈ a.draft.nodes.toList := filed.nodes ▸ List.mem_map_of_mem he
    obtain ⟨i, hi⟩ := List.getElem?_of_mem there
    rw [Array.getElem?_toList] at hi
    rw [filed.numbered i _ hi] at out
    exact absurd (Array.getElem?_eq_some_iff.mp hi).1 (Nat.not_lt.mpr out)
  | nodePlacedTwice n first second =>
    have twice := violated.map (·.2)
    rw [Draft.placements_nodes] at twice
    exact absurd twice (List.nodup_iff_sublist.mp filed.once n)

end Assembly

/-- A graph lists the nodes pushed into a block in the order in which they were pushed. -/
theorem Draft.Filed.nodesOf {g : Flowgraph} {placed : List (BlockId × Node)} (h : g.Filed placed) (b : BlockId) :
    g.nodesOf b = (placed.filter (·.1 = b)).map (·.2.id) := by
  unfold Flowgraph.nodesOf Flowgraph.block?
  cases hB : g.blocks[b.index]? with
  | none =>
    refine (List.map_eq_nil_iff.mpr (List.filter_eq_nil_iff.mpr fun e he into => ?_)).symm
    have there := h.blocks e he
    rw [of_decide_eq_true into, Draft.hasBlock, decide_eq_true_eq] at there
    exact absurd there (Nat.not_lt.mpr (Array.getElem?_eq_none_iff.mp hB))
  | some B =>
    obtain rfl : B.id = b := BlockId.index_inj.mp (h.labelled _ B hB)
    exact h.listed B (Array.mem_of_getElem? hB)

namespace Assembly

structure Made (log : List (Call × Answer)) (g : Flowgraph) : Prop where
  entry : g.entry = ⟨0⟩
  entries : g.blocksWithRole .entry = [⟨0⟩]
  atMostOneExit : (g.blocksWithRole .exit).length ≤ 1
  atMostOneExceptionalExit : (g.blocksWithRole .exceptionalExit).length ≤ 1
  exit : ∀ answer, (.exit, answer) ∈ log → ∃ b, answer = .block b ∧ g.blocksWithRole .exit = [b]
  exceptionalExit : ∀ answer, (.exceptionalExit, answer) ∈ log →
    ∃ b, answer = .block b ∧ g.blocksWithRole .exceptionalExit = [b]
  /-- A node that was pushed is in the block it was pushed into, and in no other. -/
  placed : ∀ b operation location answer, (.push b operation location, answer) ∈ log →
    ∃ n, answer = .node n ∧ g.node? n = some { id := n, operation, location } ∧ ∀ c, n ∈ g.nodesOf c ↔ c = b
  nodes : g.nodes.toList = (pushed log).map (·.2)
  /-- Blocks list their nodes in the order in which they were pushed. -/
  listed : ∀ b, g.nodesOf b = ((pushed log).filter (·.1 = b)).map (·.2.id)
  edges : g.edges = log.flatMap (·.1.edges)

theorem Kept.made (h : Kept log a) {g : Flowgraph} (same : g.toDraft = a.draft) : Made log g := by
  have filed : g.Filed (pushed log) := same ▸ h.filed
  have exits : g.blocksWithRole .exit = a.exit.toList := by
    show g.toDraft.withRole .exit = _
    rw [same, h.shared.exits]
  have exceptionalExits : g.blocksWithRole .exceptionalExit = a.exceptionalExit.toList := by
    show g.toDraft.withRole .exceptionalExit = _
    rw [same, h.shared.exceptionalExits]
  constructor
  · rw [same, h.shared.entry]
  · show g.toDraft.withRole .entry = _
    rw [same, h.shared.entries]
  · rw [exits]
    cases a.exit <;> simp
  · rw [exceptionalExits]
    cases a.exceptionalExit <;> simp
  · intro answer asked
    obtain ⟨b, hb, rfl⟩ := h.answered _ asked
    exact ⟨b, rfl, by rw [exits, hb]; rfl⟩
  · intro answer asked
    obtain ⟨b, hb, rfl⟩ := h.answered _ asked
    exact ⟨b, rfl, by rw [exceptionalExits, hb]; rfl⟩
  · intro b operation location answer asked
    obtain ⟨n, rfl⟩ := h.answered _ asked
    have mem : (b, { id := n, operation, location }) ∈ pushed log := List.mem_filterMap.mpr ⟨_, asked, rfl⟩
    have node : ({ id := n, operation, location } : Node) ∈ g.nodes.toList := filed.nodes ▸ List.mem_map_of_mem mem
    refine ⟨n, rfl, Flowgraph.node?_id node, fun c => ⟨fun hn => ?_, ?_⟩⟩
    · have here : n ∈ g.nodesOf b := by
        rw [filed.nodesOf]
        exact List.mem_map.mpr ⟨_, List.mem_filter.mpr ⟨mem, by simp⟩, rfl⟩
      exact Flowgraph.block_unique hn here
    · rintro rfl
      rw [filed.nodesOf]
      exact List.mem_map.mpr ⟨_, List.mem_filter.mpr ⟨mem, by simp⟩, rfl⟩
  · exact filed.nodes
  · exact filed.nodesOf
  · rw [same, h.edges]

/-- Whatever a client asks of an assembly, as long as it pushes into blocks that were handed out to it and
ids do not run out, every call is answered, and what is built has no dangling structure: it is refused
for how operands, edges or branches use what is there, or it is what was asked for. -/
theorem build_sound (name : String) (calls : List Call)
    (handed : ∀ k (hk : k < calls.length), ∀ b ∈ calls[k].pushedInto?,
      .block b ∈ ((start name).performAll (calls.take k)).1)
    (blocks : ((start name).performAll calls).2.draft.blocks.size < 2 ^ 32)
    (nodes : ((start name).performAll calls).2.draft.nodes.size < 2 ^ 32) :
    let run := (start name).performAll calls
    run.1.length = calls.length ∧
      match run.2.build with
      | .error e => e.isOfUse = true
      | .ok g => Made (calls.zip run.1) g := by
  have all := kept_performAll (kept_start name) (fun k hk b hb => .inr (handed k hk b hb)) blocks nodes
  rw [List.nil_append] at all
  obtain ⟨complete, kept⟩ := all
  intro run
  refine ⟨complete, ?_⟩
  cases built : run.2.build with
  | error e => exact kept.isOfUse_of_violates (Draft.violates_of_check (Flowgraph.ofDraft_eq_error_iff.mp built))
  | ok g => exact kept.made (Flowgraph.ofDraft_eq_ok_iff.mp built)

/-- Asks for the exit twice, and pushes into it. -/
def twoExits : List Call :=
  [.entry, .exit, .push ⟨1⟩ (.literal (.int 1)), .exceptionalExit, .exit, .push ⟨1⟩ (.leave (some ⟨0⟩)),
    .goto ⟨0⟩ ⟨1⟩, .exceptional ⟨0⟩ ⟨2⟩]

theorem build_sound_twoExits :
    ((start "f").performAll twoExits).1.length = 8 ∧
      ∃ g, ((start "f").performAll twoExits).2.build = .ok g ∧
        Made (twoExits.zip ((start "f").performAll twoExits).1) g ∧ g.nodesOf ⟨1⟩ = [⟨0⟩, ⟨1⟩] := by
  obtain ⟨complete, sound⟩ := build_sound "f" twoExits (by decide) (by decide) (by decide)
  let g : Flowgraph := { toDraft := ((start "f").performAll twoExits).2.draft, checked := by decide }
  have built : ((start "f").performAll twoExits).2.build = .ok g := Flowgraph.ofDraft_eq_ok_iff.mpr rfl
  rw [built] at sound
  exact ⟨complete, g, built, sound, rfl⟩

end Assembly

end FlowCheck
