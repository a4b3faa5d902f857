import Letta.Block

/-!
# The checkpoint engine

`checkpoint_block`, `_move_block_to_sequence`, `undo_checkpoint_block` and
`redo_checkpoint_block`, each split the way the code runs it: a *staging*
function that reads the session and returns the `Writes` it makes together
with the block row it writes back, and `Database.transact`, which loads the
block, stages, flushes and commits.

Every block row these methods write goes through `block.update(...)`, so it
is stamped (`Database.stamp`): the flush always emits its `UPDATE`, runs the
length listener on it, and checks and bumps its version.

Undo and redo are one body, `moveToNeighbour`, applied to their own
neighbour query (largest sequence below / smallest above the current one)
and their own messages. The queries return rows; both callers use only the
row's `sequence_number`, and `_move_block_to_sequence` looks the row up
again, so the model keeps the number (`List.max?` / `List.min?`).

With `use_preloaded_block` the three methods merge the caller's copy instead
of reading the block (`Database.preload`): the merge loads the stored row by
id alone, so it checks no organization.
-/

namespace Letta

/-! ## Transactions -/

/-- One manager call: load the block, stage the writes from what the session
reads, then flush and commit once. The returned row is the flushed one. -/
def Database.transact (db : Database) (load : Except BlockError Block)
    (stage : Block → Except BlockError (Writes × RowWrite)) : Except BlockError (Database × Block) :=
  match load >>= stage with
  | .ok (w, r) => (db.applyWrites w).map fun db' => (db', r.flushed)
  | .error e => .error e

/-- A block row written through `block.update(...)`, against the stored row
with its id, which the session holds. -/
def Database.stamp (db : Database) (row : Block) : RowWrite :=
  .update ((db.blocks.find? (·.id = row.id)).getD row) row

/-- `use_preloaded_block` as a caller passes it: the row it loaded by id in
an earlier session, with no organization filter, left unmodified; `none`
when the caller passes none. -/
def Database.preload (db : Database) (blockId : String) : Bool → Option Block
  | true => db.blocks.find? (·.id = blockId)
  | false => none

@[simp] theorem stamp_row (db : Database) (row : Block) : (db.stamp row).row = row := rfl

theorem stamp_of_mem {db : Database} (hk : db.BlockKeys) {b row : Block} (hb : b ∈ db.blocks)
    (hid : row.id = b.id) : db.stamp row = .update b row := by
  simp [Database.stamp, hid, find?_key_of_mem Block.id hk hb]

/-- A stamped row of a stored block is at the version the session loaded. -/
theorem versionOf_stamp {db : Database} (hk : db.BlockKeys) {b row : Block} (hb : b ∈ db.blocks)
    (hid : row.id = b.id) : db.versionOf (db.stamp row).row.id = some (db.stamp row).loaded.version := by
  rw [stamp_of_mem hk hb hid]
  exact hid ▸ versionOf_of_mem hk hb

/-- The load of checkpoint, undo and redo: a preloaded copy is any stored row
with the id, a read one is the actor's. -/
theorem loadBlock_preload_eq_ok {db : Database} (hk : db.BlockKeys) {x : String} {actor : User}
    {p : Bool} {b : Block} :
    loadBlock db x actor (db.preload x p) = .ok b ↔
      b ∈ db.blocks ∧ b.id = x ∧ (p = true ∨ b.organizationId = actor.organizationId) := by
  cases p with
  | false =>
      refine ⟨fun h => ?_, fun ⟨hb, hx, ho⟩ => ?_⟩
      · obtain ⟨hb, hx, ho⟩ := mem_of_readBlock h
        exact ⟨hb, hx, .inr ho⟩
      · exact hx ▸ readBlock_of_mem hk hb (ho.resolve_left nofun)
  | true =>
      simp only [true_or, and_true]
      rcases hf : db.preload x true with _ | c <;> change db.blocks.find? (·.id = x) = _ at hf
      · have hn : ∀ c ∈ db.blocks, c.id ≠ x := fun c hc he => by
          simpa [he] using List.find?_eq_none.mp hf c hc
        refine ⟨fun h => ?_, fun ⟨hb, hx⟩ => absurd hx (hn b hb)⟩
        obtain ⟨hb, hx, -⟩ := mem_of_readBlock h
        exact absurd hx (hn b hb)
      · have hc := List.mem_of_find?_eq_some hf
        have hcx : c.id = x := by simpa using List.find?_some hf
        have hm : mergeBlock db c = .ok c := by simp [mergeBlock, hcx, hf]
        rw [loadBlock, hm]
        exact ⟨fun h => by cases h; exact ⟨hc, hcx⟩, fun ⟨hb, hx⟩ =>
          congrArg Except.ok (eq_of_mem_of_id hk hc hb (hcx.trans hx.symm))⟩

theorem transact_ok {db db' : Database} {b : Block} {r : RowWrite} {w : Writes}
    {stage : Block → Except BlockError (Writes × RowWrite)}
    (hs : stage b = .ok (w, r)) (hw : db.applyWrites w = .ok db') :
    db.transact (.ok b) stage = .ok (db', r.flushed) := by
  simp [Database.transact, bind, Except.bind, hs, hw, Except.map]

theorem transact_load_error {db : Database} {e : BlockError}
    (stage : Block → Except BlockError (Writes × RowWrite)) :
    db.transact (.error e) stage = .error e := rfl

theorem transact_stage_error {db : Database} {b : Block} {e : BlockError}
    {stage : Block → Except BlockError (Writes × RowWrite)} (hs : stage b = .error e) :
    db.transact (.ok b) stage = .error e := by
  simp [Database.transact, bind, Except.bind, hs]

/-- A call that stages one changed row at its loaded version: the listener
decides whether it commits. -/
theorem transact_single {db : Database} {b : Block} {r : RowWrite} {p : Option (String × Nat)}
    {ins : List BlockHistory} {stage : Block → Except BlockError (Writes × RowWrite)}
    (hs : stage b = .ok (⟨p, ins, [r]⟩, r)) (hc : r.changed = true)
    (hv : db.versionOf r.row.id = some r.loaded.version) :
    db.transact (.ok b) stage =
      if r.row.content.valueLengthOk then .ok (db.commitRow r.flushed p ins, r.flushed)
      else .error (.valueError (valueLengthMessage r.row)) := by
  simp only [Database.transact, bind, Except.bind, hs, applyWrites_single hc hv]
  split <;> rfl

/-! ## checkpoint_block -/

/-- Step 2: `current_seq`, the sequence of the row `current_history_entry_id`
names, or 0 when there is none. -/
def Database.currentSequence (db : Database) (block : Block) : Nat :=
  ((block.currentHistoryEntryId.bind db.getHistory).map (·.sequenceNumber)).getD 0

/-- Steps 4–5: the new row at `current_seq + 1`, copying the block's fields. -/
def checkpointEntry (db : Database) (block : Block) (actor : User) (agentId : Option String) :
    BlockHistory :=
  { id := db.nextHistoryId
    organizationId := actor.organizationId
    blockId := block.id
    sequenceNumber := db.currentSequence block + 1
    description := block.description
    label := block.label
    value := block.value
    limit := block.limit
    metadata := block.metadata
    actorType := if truthy agentId then .lettaAgent else .lettaUser
    actorId := if truthy agentId then agentId.getD actor.id else actor.id }

/-- Steps 2–6 of `checkpoint_block`: prune every row above `current_seq`,
insert the new row, and point the block at it. -/
def checkpointWrites (db : Database) (block : Block) (actor : User)
    (agentId : Option String) : Writes × RowWrite :=
  let currentSeq := db.currentSequence block
  let historyEntry := checkpointEntry db block actor agentId
  let row := db.stamp { block with currentHistoryEntryId := some historyEntry.id }
  (⟨some (block.id, currentSeq), [historyEntry], [row]⟩, row)

/-- `BlockManager.checkpoint_block`. -/
def checkpointBlock (db : Database) (blockId : String) (actor : User) (agentId : Option String)
    (usePreloadedBlock : Option Block) : Except BlockError (Database × Block) :=
  db.transact (loadBlock db blockId actor usePreloadedBlock)
    fun block => .ok (checkpointWrites db block actor agentId)

/-! ## _move_block_to_sequence -/

/-- Lines 615–620: copy a history row's fields onto the block and point at it. -/
def Block.restore (b : Block) (e : BlockHistory) : Block :=
  { b with
    description := e.description
    label := e.label
    value := e.value
    limit := e.limit
    metadata := e.metadata
    currentHistoryEntryId := some e.id }

@[simp] theorem Block.restore_content (b : Block) (e : BlockHistory) :
    (b.restore e).content = e.content := rfl

@[simp] theorem Block.restore_id (b : Block) (e : BlockHistory) : (b.restore e).id = b.id := rfl

@[simp] theorem Block.restore_organizationId (b : Block) (e : BlockHistory) :
    (b.restore e).organizationId = b.organizationId := rfl

@[simp] theorem Block.restore_version (b : Block) (e : BlockHistory) :
    (b.restore e).version = b.version := rfl

@[simp] theorem Block.restore_currentHistoryEntryId (b : Block) (e : BlockHistory) :
    (b.restore e).currentHistoryEntryId = some e.id := rfl

/-- `BlockManager._move_block_to_sequence`: the `one_or_none` lookup of the
row at `target_seq`, then the restore; the caller commits. -/
def moveBlockToSequence (db : Database) (block : Block) (targetSeq : Nat) :
    Except BlockError (Writes × RowWrite) :=
  if block.id = "" then .error (.valueError "Block is missing an ID. Cannot move sequence.")
  else
    match (db.historyOf block.id).filter (·.sequenceNumber = targetSeq) with
    | [] => .error (.noResultFound
        ("No BlockHistory row found for block_id=" ++ block.id ++ " at sequence=" ++ toString targetSeq))
    | [targetEntry] =>
        let row := db.stamp (block.restore targetEntry)
        .ok (⟨none, [], [row]⟩, row)
    | _ :: _ :: _ => .error .multipleResultsFound

/-! ## undo_checkpoint_block and redo_checkpoint_block -/

/-- The largest sequence below `seq` among the block's rows. -/
def Database.previousSequence (db : Database) (blockId : String) (seq : Nat) : Option Nat :=
  (((db.historyOf blockId).filter (·.sequenceNumber < seq)).map (·.sequenceNumber)).max?

/-- The smallest sequence above `seq` among the block's rows. -/
def Database.nextSequence (db : Database) (blockId : String) (seq : Nat) : Option Nat :=
  (((db.historyOf blockId).filter (seq < ·.sequenceNumber)).map (·.sequenceNumber)).min?

/-- The shared body of undo and redo: the current checkpoint, the neighbouring
sequence `neighbour` picks from its number, and the move there. -/
def moveToNeighbour (db : Database) (block : Block) (neighbour : Nat → Option Nat)
    (noHistory : String) (atBoundary : Nat → String) : Except BlockError (Writes × RowWrite) :=
  match block.currentHistoryEntryId with
  | none => .error (.valueError noHistory)
  | some currentId =>
      match db.getHistory currentId with
      | none => .error (.noResultFound ("BlockHistory row not found for id=" ++ toString currentId))
      | some currentEntry =>
          match neighbour currentEntry.sequenceNumber with
          | none => .error (.valueError (atBoundary currentEntry.sequenceNumber))
          | some targetSeq => moveBlockToSequence db block targetSeq

/-- Lines 643–664 of `undo_checkpoint_block`. -/
def undoWrites (db : Database) (blockId : String) (block : Block) :
    Except BlockError (Writes × RowWrite) :=
  moveToNeighbour db block (db.previousSequence block.id)
    ("Block " ++ blockId ++ " has no history entry - cannot undo.")
    fun seq => "Block " ++ blockId ++ " is already at the earliest checkpoint (seq=" ++ toString seq ++
      "). Cannot undo further."

/-- Lines 685–704 of `redo_checkpoint_block`. -/
def redoWrites (db : Database) (blockId : String) (block : Block) :
    Except BlockError (Writes × RowWrite) :=
  moveToNeighbour db block (db.nextSequence block.id)
    ("Block " ++ blockId ++ " has no history entry - cannot redo.")
    fun seq => "Block " ++ blockId ++ " is at the highest checkpoint (seq=" ++ toString seq ++
      "). Cannot redo further."

/-- `BlockManager.undo_checkpoint_block`. -/
def undoCheckpointBlock (db : Database) (blockId : String) (actor : User)
    (usePreloadedBlock : Option Block) : Except BlockError (Database × Block) :=
  db.transact (loadBlock db blockId actor usePreloadedBlock) (undoWrites db blockId)

/-- `BlockManager.redo_checkpoint_block`. -/
def redoCheckpointBlock (db : Database) (blockId : String) (actor : User)
    (usePreloadedBlock : Option Block) : Except BlockError (Database × Block) :=
  db.transact (loadBlock db blockId actor usePreloadedBlock) (redoWrites db blockId)

/-! ## What staging can produce -/

/-- A move writes back exactly one row, the block restored from one of its
own rows at the target sequence, and touches no history row. -/
theorem moveBlockToSequence_eq_ok {db : Database} {block : Block} {t : Nat} {w : Writes}
    {r : RowWrite} :
    moveBlockToSequence db block t = .ok (w, r) ↔
      block.id ≠ "" ∧ ∃ e, (db.historyOf block.id).filter (·.sequenceNumber = t) = [e] ∧
        r = db.stamp (block.restore e) ∧ w = ⟨none, [], [r]⟩ := by
  unfold moveBlockToSequence
  by_cases hid : block.id = ""
  · simp only [hid, if_true]
    exact ⟨(fun h => nomatch h), fun h => absurd rfl h.1⟩
  · rw [if_neg hid]
    split
    · rename_i heq
      exact ⟨(fun h => nomatch h), fun ⟨_, _, he, _⟩ => by simp [heq] at he⟩
    · rename_i e heq
      constructor
      · intro h
        obtain ⟨rfl, rfl⟩ := Prod.mk.inj (Except.ok.inj h)
        exact ⟨hid, e, heq, rfl, rfl⟩
      · rintro ⟨-, e', he', rfl, rfl⟩
        obtain rfl : e = e' := by simpa [heq] using he'
        rfl
    · rename_i heq
      exact ⟨(fun h => nomatch h), fun ⟨_, _, he, _⟩ => by simp [heq] at he⟩

/-- Undo and redo succeed exactly when there is a current row, the neighbour
query finds a sequence, and the move there succeeds. -/
theorem moveToNeighbour_eq_ok {db : Database} {block : Block} {nb : Nat → Option Nat}
    {m : String} {mb : Nat → String} {w : Writes} {r : RowWrite} :
    moveToNeighbour db block nb m mb = .ok (w, r) ↔
      ∃ i e t, block.currentHistoryEntryId = some i ∧ db.getHistory i = some e ∧
        nb e.sequenceNumber = some t ∧ moveBlockToSequence db block t = .ok (w, r) := by
  unfold moveToNeighbour
  split
  · simp_all
  · split
    · simp_all
    · split <;> simp_all

/-- What undo and redo stage: the block restored from one of its own rows. -/
theorem moveToNeighbour_writes {db : Database} {b : Block} {nb : Nat → Option Nat} {m : String}
    {mb : Nat → String} {w : Writes} {r : RowWrite} (h : moveToNeighbour db b nb m mb = .ok (w, r)) :
    w = ⟨none, [], [r]⟩ ∧ ∃ e ∈ db.historyOf b.id, r = db.stamp (b.restore e) := by
  obtain ⟨_, _, _, _, _, _, hm⟩ := moveToNeighbour_eq_ok.mp h
  obtain ⟨-, e, he, rfl, rfl⟩ := moveBlockToSequence_eq_ok.mp hm
  exact ⟨rfl, e, (List.mem_filter.mp (he ▸ List.mem_singleton_self e)).1, rfl⟩

/-! ## Each call on a stored block -/

section Stored

variable {db : Database} {b : Block}

/-- A call that stages one stamped write-back of the stored row it loaded. -/
theorem transact_stamp (hk : db.BlockKeys) (hb : b ∈ db.blocks)
    {stage : Block → Except BlockError (Writes × RowWrite)} {p : Option (String × Nat)}
    {ins : List BlockHistory} (row : Block) (hs : stage b = .ok (⟨p, ins, [db.stamp row]⟩, db.stamp row))
    (hid : row.id = b.id) :
    db.transact (.ok b) stage =
      if row.content.valueLengthOk then
        .ok (db.commitRow (RowWrite.update b row).flushed p ins, (RowWrite.update b row).flushed)
      else .error (.valueError (valueLengthMessage row)) := by
  rw [transact_single hs rfl (versionOf_stamp hk hb hid), stamp_of_mem hk hb hid]
  rfl

/-- Undo and redo of a stored row: the move, committed when the restored row
passes the listener. -/
theorem transact_move (hk : db.BlockKeys) (hb : b ∈ db.blocks) (nb : Block → Nat → Option Nat)
    (m : String) (mb : Nat → String) :
    db.transact (.ok b) (fun b => moveToNeighbour db b (nb b) m mb) =
      match moveToNeighbour db b (nb b) m mb with
      | .ok (_, r) => if r.row.content.valueLengthOk then .ok (db.commitRow r.flushed none [], r.flushed)
          else .error (.valueError (valueLengthMessage r.row))
      | .error e => .error e := by
  rcases hs : moveToNeighbour db b (nb b) m mb with e | ⟨w, r⟩
  · exact transact_stage_error hs
  · obtain ⟨rfl, e, -, rfl⟩ := moveToNeighbour_writes hs
    exact transact_single hs rfl (versionOf_stamp hk hb rfl)

end Stored

end Letta
