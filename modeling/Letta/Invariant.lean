import Letta.Updates

/-!
# The history invariant

Serial runs of the manager's mutating calls (`Call`, `runCalls`), and the
invariant every reachable database keeps (`HistoryInv`): for every block,
its history rows are numbered `1..n` in table order, the rows were created in
that order (ids come from a counter), and `current_history_entry_id` is
unset exactly when there are no rows and otherwise names one of them.

Every history row also passes the length listener (`snapshotsOk`): a
checkpoint copies the block's content, and it commits only when the block
row it writes back, with that same content, passes the listener.

The proof is one lemma per kind of write: a write-back of block rows that
keeps ids and leaves each pointer on a row of its own block
(`HistoryInv.of_blocks`), the checkpoint's prune-and-append
(`HistoryInv.checkpoint`), and the insert of a new block
(`HistoryInv.insert`). Each call's spec lemma on an invariant state says which
of these it is, and `historyInv_runCalls` folds them over the run.

On an invariant state the `NoResultFound` and `MultipleResultsFound`
branches of undo, redo and `_move_block_to_sequence` are dead, and undo
(redo) fails exactly at sequence 1 (n) (`reachable_history_wellFormed`).
-/

namespace Letta

/-! ## Serial runs -/

/-- A call of the manager's mutating API. With `usePreloadedBlock` set,
checkpoint, undo and redo are passed the caller's copy of the block
(`Database.preload`) and merge it instead of reading the block. -/
inductive Call where
  | checkpointBlock (blockId : String) (actor : User) (agentId : Option String) (usePreloadedBlock : Bool)
  | undoCheckpointBlock (blockId : String) (actor : User) (usePreloadedBlock : Bool)
  | redoCheckpointBlock (blockId : String) (actor : User) (usePreloadedBlock : Bool)
  | updateBlock (blockId : String) (blockUpdate : BlockUpdate) (actor : User)
  | updateBlockAsync (blockId : String) (blockUpdate : BlockUpdate) (actor : User)
  | createOrUpdateBlock (block : PydanticBlock) (actor : User) (now : Nat)
  | createOrUpdateBlockAsync (block : PydanticBlock) (actor : User) (now : Nat)
  | bulkUpdateBlockValuesAsync (updates : List (String × String)) (actor : User)
deriving Repr, DecidableEq

/-- The database a call's result commits: a call that raises commits nothing. -/
def committed {α : Type} (db : Database) : Except BlockError (Database × α) → Database
  | .ok (db', _) => db'
  | .error _ => db

/-- One serial call. -/
def Call.run (db : Database) : Call → Database
  | .checkpointBlock blockId actor agentId p =>
      committed db (Letta.checkpointBlock db blockId actor agentId (db.preload blockId p))
  | .undoCheckpointBlock blockId actor p =>
      committed db (Letta.undoCheckpointBlock db blockId actor (db.preload blockId p))
  | .redoCheckpointBlock blockId actor p =>
      committed db (Letta.redoCheckpointBlock db blockId actor (db.preload blockId p))
  | .updateBlock blockId u actor => committed db (Letta.updateBlock db blockId u actor)
  | .updateBlockAsync blockId u actor => committed db (Letta.updateBlockAsync db blockId u actor)
  | .createOrUpdateBlock block actor now => committed db (Letta.createOrUpdateBlock db block actor now)
  | .createOrUpdateBlockAsync block actor now =>
      committed db (Letta.createOrUpdateBlockAsync db block actor now)
  | .bulkUpdateBlockValuesAsync updates actor =>
      match Letta.bulkUpdateBlockValuesAsync db updates actor with
      | .ok db' => db'
      | .error _ => db

/-- A serial run. -/
def runCalls (db : Database) : List Call → Database
  | [] => db
  | c :: cs => runCalls (c.run db) cs

/-! ## Rows numbered 1..n -/

/-- Rows numbered `1..n` in table order. -/
def Numbered (rows : List BlockHistory) : Prop :=
  rows.map (·.sequenceNumber) = List.range' 1 rows.length

theorem take_range' : ∀ (k s n : Nat), (List.range' s n).take k = List.range' s (min k n)
  | 0, _, _ => by simp
  | _ + 1, _, 0 => by simp
  | k + 1, s, n + 1 => by
      rw [List.range'_succ, List.take_succ_cons, take_range' k (s + 1) n,
        show min (k + 1) (n + 1) = min k n + 1 by omega, List.range'_succ]

namespace Numbered

variable {rows : List BlockHistory}

theorem eq (h : Numbered rows) : rows.map (·.sequenceNumber) = List.range' 1 rows.length := h

theorem seq_getElem (h : Numbered rows) {j : Nat} (hj : j < rows.length) :
    rows[j].sequenceNumber = j + 1 := by
  have := List.getElem_of_eq h (by simpa using hj)
  simpa [Nat.add_comm] using this

theorem seq_mem (h : Numbered rows) {r : BlockHistory} (hr : r ∈ rows) :
    1 ≤ r.sequenceNumber ∧ r.sequenceNumber ≤ rows.length := by
  have := h.eq ▸ List.mem_map_of_mem (fun r : BlockHistory => r.sequenceNumber) hr
  simp only [List.mem_range'_1] at this
  omega

theorem nodup (h : Numbered rows) : (rows.map (·.sequenceNumber)).Nodup :=
  h ▸ List.nodup_range' 1 rows.length

/-- The `one_or_none` lookup at sequence `j + 1` meets exactly `rows[j]`. -/
theorem filter_seq (h : Numbered rows) {j : Nat} (hj : j < rows.length) :
    rows.filter (·.sequenceNumber = j + 1) = [rows[j]] := by
  simpa [h.seq_getElem hj] using filter_key_of_mem (·.sequenceNumber) h.nodup (List.getElem_mem hj)

/-- The checkpoint's prune keeps the first `k` rows. -/
theorem prune (h : Numbered rows) (k : Nat) :
    rows.filter (fun r => !decide (k < r.sequenceNumber)) = rows.take k := by
  suffices ∀ (l : List BlockHistory) (s : Nat), l.map (·.sequenceNumber) = List.range' s l.length →
      l.filter (fun r => !decide (k < r.sequenceNumber)) = l.take (k + 1 - s) by
    simpa using this rows 1 h
  intro l
  induction l with
  | nil => simp
  | cons x xs ih =>
      intro s hs
      rw [List.map_cons, List.length_cons, List.range'_succ, List.cons.injEq] at hs
      rw [List.filter_cons, ih (s + 1) hs.2]
      by_cases hk : s ≤ k
      · rw [if_pos (by simp [hs.1]; omega), show k + 1 - s = (k + 1 - (s + 1)) + 1 by omega]
        rfl
      · rw [if_neg (by simp [hs.1]; omega), show k + 1 - s = 0 by omega,
          show k + 1 - (s + 1) = 0 by omega]
        rfl

theorem take (h : Numbered rows) (k : Nat) : Numbered (rows.take k) := by
  simp only [Numbered, List.map_take, h.eq, take_range', List.length_take]

/-- The checkpoint's append at `k + 1` keeps the numbering. -/
theorem take_append (h : Numbered rows) {k : Nat} (hk : k ≤ rows.length) {e : BlockHistory}
    (he : e.sequenceNumber = k + 1) : Numbered (rows.take k ++ [e]) := by
  have ht := h.take k
  simp only [Numbered, List.length_take, Nat.min_eq_left hk] at ht
  simp only [Numbered, List.map_append, ht, List.length_append, List.length_take,
    Nat.min_eq_left hk, List.length_singleton, List.map_cons, List.map_nil, he,
    List.range'_1_concat, Nat.add_comm 1 k]

/-- Undo's query: the largest sequence below `k` is `k - 1`, and there is
none at `k = 1`. -/
theorem previous (h : Numbered rows) {k : Nat} (hk : 1 ≤ k ∧ k ≤ rows.length) :
    ((rows.filter (·.sequenceNumber < k)).map (·.sequenceNumber)).max? =
      if k = 1 then none else some (k - 1) := by
  rw [show (rows.filter (·.sequenceNumber < k)).map (·.sequenceNumber) =
    (rows.map (·.sequenceNumber)).filter (· < k) by rw [List.filter_map]; rfl, h.eq]
  split
  · simp only [List.max?_eq_none_iff, List.filter_eq_nil_iff, List.mem_range'_1, decide_eq_true_eq]
    omega
  · rw [List.max?_eq_some_iff']
    simp only [List.mem_filter, List.mem_range'_1, decide_eq_true_eq, and_imp]
    exact ⟨by omega, fun _ _ _ _ => by omega⟩

/-- Redo's query: the smallest sequence above `k` is `k + 1`, and there is
none at `k = n`. -/
theorem next (h : Numbered rows) {k : Nat} (hk : 1 ≤ k ∧ k ≤ rows.length) :
    ((rows.filter (k < ·.sequenceNumber)).map (·.sequenceNumber)).min? =
      if k = rows.length then none else some (k + 1) := by
  rw [show (rows.filter (k < ·.sequenceNumber)).map (·.sequenceNumber) =
    (rows.map (·.sequenceNumber)).filter (k < ·) by rw [List.filter_map]; rfl, h.eq]
  split
  · simp only [List.min?_eq_none_iff, List.filter_eq_nil_iff, List.mem_range'_1, decide_eq_true_eq]
    omega
  · rw [List.min?_eq_some_iff']
    simp only [List.mem_filter, List.mem_range'_1, decide_eq_true_eq, and_imp]
    exact ⟨by omega, fun _ _ _ _ => by omega⟩

end Numbered

/-! ## What each call commits -/

/-- The database a checkpoint of `b` commits. -/
abbrev checkpointed (db : Database) (b : Block) (actor : User) (agentId : Option String) : Database :=
  db.commitRow (RowWrite.update b { b with currentHistoryEntryId := some db.nextHistoryId }).flushed
    (some (b.id, db.currentSequence b)) [checkpointEntry db b actor agentId]

section RunSpec

variable {db : Database}

theorem committed_transact {load : Except BlockError Block}
    {stage : Block → Except BlockError (Writes × RowWrite)} (d : Block → Database) :
    (∀ b, load = .ok b → committed db (db.transact (.ok b) stage) = d b) →
    committed db (db.transact load stage) =
      match load with
      | .ok b => d b
      | .error _ => db := by
  intro hs
  cases load with
  | error => rfl
  | ok b => exact hs b rfl

theorem run_checkpointBlock (hk : db.BlockKeys) (blockId : String) (actor : User)
    (agentId : Option String) (p : Bool) :
    (Call.checkpointBlock blockId actor agentId p).run db =
      match loadBlock db blockId actor (db.preload blockId p) with
      | .ok b => if b.content.valueLengthOk then checkpointed db b actor agentId else db
      | .error _ => db :=
  committed_transact _ fun b hl => by
    rw [transact_stamp hk ((loadBlock_preload_eq_ok hk).mp hl).1
      { b with currentHistoryEntryId := some db.nextHistoryId } rfl rfl]
    exact apply_ite (committed db) _ _ _

/-- Undo and redo commit the row their staging writes back when it passes
the length listener, or nothing. -/
theorem committed_transact_move {load : Except BlockError Block}
    (stage : Block → Except BlockError (Writes × RowWrite)) :
    (∀ b, load = .ok b →
      db.transact (.ok b) stage =
        match stage b with
        | .ok (_, r) => if r.row.content.valueLengthOk then .ok (db.commitRow r.flushed none [], r.flushed)
            else .error (.valueError (valueLengthMessage r.row))
        | .error e => .error e) →
    committed db (db.transact load stage) =
      match load with
      | .ok b => match stage b with
        | .ok (_, r) => if r.row.content.valueLengthOk then db.commitRow r.flushed none [] else db
        | .error _ => db
      | .error _ => db := fun hmove =>
  committed_transact _ fun b hl => by
    rw [hmove b hl]
    rcases stage b with e | ⟨w, r⟩
    · rfl
    · exact apply_ite (committed db) _ _ _

theorem run_undoCheckpointBlock (hk : db.BlockKeys) (blockId : String) (actor : User) (p : Bool) :
    (Call.undoCheckpointBlock blockId actor p).run db =
      match loadBlock db blockId actor (db.preload blockId p) with
      | .ok b => match undoWrites db blockId b with
        | .ok (_, r) => if r.row.content.valueLengthOk then db.commitRow r.flushed none [] else db
        | .error _ => db
      | .error _ => db :=
  committed_transact_move _ fun _ hl =>
    transact_move hk ((loadBlock_preload_eq_ok hk).mp hl).1 (fun b => db.previousSequence b.id) _ _

theorem run_redoCheckpointBlock (hk : db.BlockKeys) (blockId : String) (actor : User) (p : Bool) :
    (Call.redoCheckpointBlock blockId actor p).run db =
      match loadBlock db blockId actor (db.preload blockId p) with
      | .ok b => match redoWrites db blockId b with
        | .ok (_, r) => if r.row.content.valueLengthOk then db.commitRow r.flushed none [] else db
        | .error _ => db
      | .error _ => db :=
  committed_transact_move _ fun _ hl =>
    transact_move hk ((loadBlock_preload_eq_ok hk).mp hl).1 (fun b => db.nextSequence b.id) _ _

theorem committed_updateBlock (hk : db.BlockKeys) (blockId : String) (u : BlockUpdate) (actor : User) :
    committed db (updateBlock db blockId u actor) =
      match readBlock db blockId actor with
      | .ok b => if (u.apply b).content.valueLengthOk then
          db.commitRow (RowWrite.update b (u.apply b)).flushed none [] else db
      | .error _ => db :=
  committed_transact _ fun b hr => by
    rw [transact_stamp hk (mem_of_readBlock hr).1 (u.apply b) rfl rfl]
    exact apply_ite (committed db) _ _ _

theorem run_updateBlock (hk : db.BlockKeys) (blockId : String) (u : BlockUpdate) (actor : User) :
    (Call.updateBlock blockId u actor).run db =
      match readBlock db blockId actor with
      | .ok b => if (u.apply b).content.valueLengthOk then
          db.commitRow (RowWrite.update b (u.apply b)).flushed none [] else db
      | .error _ => db :=
  committed_updateBlock hk blockId u actor

theorem run_updateBlockAsync (hk : db.BlockKeys) (blockId : String) (u : BlockUpdate) (actor : User) :
    (Call.updateBlockAsync blockId u actor).run db =
      match readBlock db blockId actor with
      | .ok b => if (u.apply b).content.valueLengthOk then
          db.commitRow (RowWrite.update b (u.apply b)).flushed none [] else db
      | .error _ => db :=
  committed_updateBlock hk blockId u actor

/-- The database the insert branch of `create_or_update_block` commits. -/
theorem committed_insertBlock (block : PydanticBlock) (actor : User) (now : Nat) :
    committed db (insertBlock db block actor now) =
      if !(block.toModel actor now).content.valueLengthOk || db.blocks.any (·.id = block.id) then db
      else { db with blocks := db.blocks ++ [block.toModel actor now] } := by
  unfold insertBlock
  by_cases h₁ : (block.toModel actor now).content.valueLengthOk <;>
    by_cases h₂ : db.blocks.any (·.id = block.id) <;> simp [h₁, h₂, committed]

/-- Both `create_or_update` variants: the update of a block the actor reads,
or the insert of a new one. -/
theorem committed_createOrUpdate (hk : db.BlockKeys) (block : PydanticBlock) (actor : User) (now : Nat) :
    committed db (createOrUpdateBlock db block actor now) =
      match readBlock db block.id actor with
      | .ok b => if (block.toUpdate.apply b).content.valueLengthOk then
          db.commitRow (RowWrite.update b (block.toUpdate.apply b)).flushed none [] else db
      | .error _ => if !(block.toModel actor now).content.valueLengthOk || db.blocks.any (·.id = block.id)
          then db else { db with blocks := db.blocks ++ [block.toModel actor now] } := by
  have hu := committed_updateBlock hk block.id block.toUpdate actor
  unfold createOrUpdateBlock
  rcases hr : readBlock db block.id actor with e | b <;> rw [hr] at hu <;> dsimp only at hu ⊢
  · rw [← committed_insertBlock]
    cases insertBlock db block actor now <;> rfl
  · rw [← hu]
    cases updateBlock db block.id block.toUpdate actor <;> rfl

theorem run_createOrUpdateBlock (hk : db.BlockKeys) (block : PydanticBlock) (actor : User) (now : Nat) :
    (Call.createOrUpdateBlock block actor now).run db =
      match readBlock db block.id actor with
      | .ok b => if (block.toUpdate.apply b).content.valueLengthOk then
          db.commitRow (RowWrite.update b (block.toUpdate.apply b)).flushed none [] else db
      | .error _ => if !(block.toModel actor now).content.valueLengthOk || db.blocks.any (·.id = block.id)
          then db else { db with blocks := db.blocks ++ [block.toModel actor now] } :=
  committed_createOrUpdate hk block actor now

theorem run_createOrUpdateBlockAsync (hk : db.BlockKeys) (block : PydanticBlock) (actor : User) (now : Nat) :
    (Call.createOrUpdateBlockAsync block actor now).run db =
      match readBlock db block.id actor with
      | .ok b => if (block.toUpdate.apply b).content.valueLengthOk then
          db.commitRow (RowWrite.update b (block.toUpdate.apply b)).flushed none [] else db
      | .error _ => if !(block.toModel actor now).content.valueLengthOk || db.blocks.any (·.id = block.id)
          then db else { db with blocks := db.blocks ++ [block.toModel actor now] } := by
  rw [← committed_createOrUpdate hk block actor now]
  show committed db (createOrUpdateBlockAsync db block actor now) = _
  unfold createOrUpdateBlock createOrUpdateBlockAsync updateBlockAsync
  split
  · cases updateBlock db block.id block.toUpdate actor <;> rfl
  · rfl

/-- The bulk write commits when every row it assigns passes the length
listener, and otherwise rolls back. -/
theorem run_bulkUpdateBlockValuesAsync (hk : db.BlockKeys) (updates : List (String × String)) (actor : User) :
    (Call.bulkUpdateBlockValuesAsync updates actor).run db =
      if (bulkWrites db updates actor).valueLengthsOk then
        { db with blocks := db.blocks.map (bulkCommittedRow updates actor) } else db := by
  split
  · simp only [Call.run, bulkUpdateBlockValuesAsync_eq hk ‹_›]
  · obtain ⟨m, hm⟩ := @applyWrites_valueError db _ (Bool.eq_false_iff.mpr ‹_›)
    simp only [Call.run, bulkUpdateBlockValuesAsync, hm]

end RunSpec

/-! ## The invariant -/

/-- `current_history_entry_id` is unset when the block has no rows, and
otherwise names one of them. -/
def CurrentOk (db : Database) (b : Block) : Prop :=
  match b.currentHistoryEntryId with
  | none => db.historyOf b.id = []
  | some i => ∃ h ∈ db.historyOf b.id, h.id = i

/-- What every reachable database satisfies. History ids come from a counter,
so their table order is creation order (`ordered`) and they stay below it
(`fresh`). -/
structure HistoryInv (db : Database) : Prop where
  keys : db.BlockKeys
  id_ne : ∀ b ∈ db.blocks, b.id ≠ ""
  owned : ∀ h ∈ db.blockHistory, h.blockId ∈ db.blocks.map (·.id)
  fresh : ∀ h ∈ db.blockHistory, h.id < db.nextHistoryId
  ordered : (db.blockHistory.map (·.id)).Pairwise (· < ·)
  numbered : ∀ b ∈ db.blocks, Numbered (db.historyOf b.id)
  current : ∀ b ∈ db.blocks, CurrentOk db b
  snapshotsOk : ∀ h ∈ db.blockHistory, h.content.valueLengthOk = true

/-- A database as block creation leaves it: no checkpoint yet. -/
structure Fresh (db : Database) : Prop where
  keys : db.BlockKeys
  id_ne : ∀ b ∈ db.blocks, b.id ≠ ""
  no_history : db.blockHistory = []
  no_current : ∀ b ∈ db.blocks, b.currentHistoryEntryId = none

theorem Fresh.historyInv {db : Database} (h : Fresh db) : HistoryInv db where
  keys := h.keys
  id_ne := h.id_ne
  owned := by simp [h.no_history]
  fresh := by simp [h.no_history]
  ordered := by simp [h.no_history]
  numbered := fun _ _ => by simp [Numbered, Database.historyOf, h.no_history]
  current := fun b hb => by simp [CurrentOk, h.no_current b hb, Database.historyOf, h.no_history]
  snapshotsOk := by simp [h.no_history]

namespace HistoryInv

variable {db : Database}

theorem history_nodup (hi : HistoryInv db) : (db.blockHistory.map (·.id)).Nodup :=
  hi.ordered.imp Nat.ne_of_lt

theorem getHistory_of_mem (hi : HistoryInv db) {h : BlockHistory} (hh : h ∈ db.blockHistory) :
    db.getHistory h.id = some h :=
  find?_key_of_mem BlockHistory.id hi.history_nodup hh

/-- The row `current_history_entry_id` names, and what `session.get` returns. -/
theorem currentRow (hi : HistoryInv db) {b : Block} (hb : b ∈ db.blocks) {i : Nat}
    (hc : b.currentHistoryEntryId = some i) :
    ∃ r ∈ db.historyOf b.id, r.id = i ∧ db.getHistory i = some r := by
  have := hi.current b hb
  simp only [CurrentOk, hc] at this
  obtain ⟨r, hr, rfl⟩ := this
  exact ⟨r, hr, rfl, hi.getHistory_of_mem (List.mem_filter.mp hr).1⟩

theorem currentSequence_none {b : Block} (hc : b.currentHistoryEntryId = none) :
    db.currentSequence b = 0 := by
  simp [Database.currentSequence, hc]

theorem currentSequence_some {b : Block} {i : Nat} {r : BlockHistory}
    (hc : b.currentHistoryEntryId = some i) (hg : db.getHistory i = some r) :
    db.currentSequence b = r.sequenceNumber := by
  simp [Database.currentSequence, hc, hg]

theorem currentSequence_le (hi : HistoryInv db) {b : Block} (hb : b ∈ db.blocks) :
    db.currentSequence b ≤ (db.historyOf b.id).length := by
  rcases hc : b.currentHistoryEntryId with _ | i
  · simp [currentSequence_none hc]
  · obtain ⟨r, hr, -, hg⟩ := hi.currentRow hb hc
    rw [currentSequence_some hc hg]
    exact ((hi.numbered b hb).seq_mem hr).2

/-! ### Writes that keep the history -/

/-- A write-back of block rows that keeps ids and leaves each pointer on a
row of its own block. -/
theorem of_blocks (hi : HistoryInv db) (f : Block → Block) (hid : ∀ b ∈ db.blocks, (f b).id = b.id)
    (hcur : ∀ b ∈ db.blocks, CurrentOk db (f b)) : HistoryInv { db with blocks := db.blocks.map f } := by
  have hids : (db.blocks.map f).map (·.id) = db.blocks.map (·.id) := by
    rw [List.map_map]
    exact List.map_congr_left fun b hb => hid b hb
  refine ⟨?_, ?_, ?_, hi.fresh, hi.ordered, ?_, ?_, hi.snapshotsOk⟩
  · show ((db.blocks.map f).map (·.id)).Nodup
    exact hids ▸ hi.keys
  · intro b' hb'
    obtain ⟨b, hb, rfl⟩ := List.mem_map.mp hb'
    exact hid b hb ▸ hi.id_ne b hb
  · intro h hh
    exact hids ▸ hi.owned h hh
  · intro b' hb'
    obtain ⟨b, hb, rfl⟩ := List.mem_map.mp hb'
    exact (hid b hb).symm ▸ hi.numbered b hb
  · intro b' hb'
    obtain ⟨b, hb, rfl⟩ := List.mem_map.mp hb'
    exact hcur b hb

theorem currentOk_congr {b b' : Block} (hid : b'.id = b.id)
    (hc : b'.currentHistoryEntryId = b.currentHistoryEntryId) (h : CurrentOk db b) : CurrentOk db b' := by
  unfold CurrentOk
  rwa [hc, hid]

/-- The write-back of one row of a stored block. -/
theorem commitRow_none (hi : HistoryInv db) {b' : Block} (hc : CurrentOk db b') :
    HistoryInv (db.commitRow b' none []) := by
  rw [Letta.commitRow_none]
  refine hi.of_blocks _ (fun x _ => ?_) fun x hx => ?_
  · split <;> simp_all
  · split
    · exact currentOk_congr rfl rfl hc
    · exact hi.current x hx

/-- A write-back that keeps every id and every pointer. -/
theorem of_blocks_keep (hi : HistoryInv db) (f : Block → Block) (hid : ∀ b ∈ db.blocks, (f b).id = b.id)
    (hc : ∀ b ∈ db.blocks, (f b).currentHistoryEntryId = b.currentHistoryEntryId) :
    HistoryInv { db with blocks := db.blocks.map f } :=
  hi.of_blocks f hid fun b hb => currentOk_congr (hid b hb) (hc b hb) (hi.current b hb)

/-! ### The checkpoint's prune and append -/

section Checkpoint

variable (db) (b : Block) (actor : User) (agentId : Option String)

theorem historyOf_checkpointed_other {x : String} (hx : x ≠ b.id) :
    (checkpointed db b actor agentId).historyOf x = db.historyOf x := by
  rw [historyOf_commitRow]
  have : (db.historyOf x).filter (fun h => !prunes (some (b.id, db.currentSequence b)) h) =
      db.historyOf x := by
    apply List.filter_eq_self.mpr
    intro h hh
    have : h.blockId = x := of_decide_eq_true (List.mem_filter.mp hh).2
    simp [prunes, this, hx]
  simp [this, checkpointEntry, Ne.symm hx]

theorem historyOf_checkpointed_self (hi : HistoryInv db) (hb : b ∈ db.blocks) :
    (checkpointed db b actor agentId).historyOf b.id =
      (db.historyOf b.id).take (db.currentSequence b) ++ [checkpointEntry db b actor agentId] := by
  rw [historyOf_commitRow, ← (hi.numbered b hb).prune]
  congr 1
  · apply List.filter_congr
    intro h hh
    have : h.blockId = b.id := of_decide_eq_true (List.mem_filter.mp hh).2
    simp [prunes, this]
  · simp [checkpointEntry]

end Checkpoint

/-- A committed checkpoint: its block row, with the block's content, passed
the length listener, and so does the row it appends. -/
theorem checkpoint (hi : HistoryInv db) {b : Block} (hb : b ∈ db.blocks)
    (hv : b.content.valueLengthOk = true) (actor : User) (agentId : Option String) :
    HistoryInv (checkpointed db b actor agentId) := by
  set e := checkpointEntry db b actor agentId
  have he : e.id = db.nextHistoryId := rfl
  have hk := hi.currentSequence_le hb
  have hids : ((checkpointed db b actor agentId).blocks).map (·.id) = db.blocks.map (·.id) := by
    simp only [Database.commitRow, List.map_map]
    exact List.map_congr_left fun x _ => by by_cases h : b.id = x.id <;> simp [h]
  have hist : (checkpointed db b actor agentId).blockHistory =
      db.blockHistory.filter (fun h => !prunes (some (b.id, db.currentSequence b)) h) ++ [e] := rfl
  refine ⟨?_, ?_, ?_, ?_, ?_, ?_, ?_, ?_⟩
  · exact (show List.Nodup _ from hids ▸ hi.keys)
  · intro x hx
    obtain ⟨y, hy, rfl⟩ := List.mem_map.mp hx
    by_cases h : b.id = y.id <;> simp [h, hi.id_ne y hy, hi.id_ne b hb]
  · intro h hh
    rw [hids]
    rw [hist, List.mem_append, List.mem_singleton] at hh
    rcases hh with hh | rfl
    · exact hi.owned h (List.mem_filter.mp hh).1
    · exact List.mem_map_of_mem _ hb
  · intro h hh
    rw [hist, List.mem_append, List.mem_singleton] at hh
    rcases hh with hh | rfl
    · exact Nat.lt_succ_of_lt (hi.fresh h (List.mem_filter.mp hh).1)
    · simp [Database.commitRow, he]
  · rw [hist, List.map_append, List.pairwise_append]
    refine ⟨hi.ordered.sublist ((List.filter_sublist _).map _), List.pairwise_singleton _ _, ?_⟩
    intro a ha c hc
    obtain ⟨h, hh, rfl⟩ := List.mem_map.mp ha
    rw [List.map_singleton, List.mem_singleton] at hc
    exact hc ▸ he ▸ hi.fresh h (List.mem_filter.mp hh).1
  · intro x hx
    obtain ⟨y, hy, rfl⟩ := List.mem_map.mp hx
    by_cases h : b.id = y.id
    · simp only [RowWrite.flushed_id, RowWrite.update_row, h, if_true]
      rw [← h, historyOf_checkpointed_self db b actor agentId hi hb]
      exact (hi.numbered b hb).take_append hk rfl
    · simp only [RowWrite.flushed_id, RowWrite.update_row, h, if_false]
      rw [historyOf_checkpointed_other db b actor agentId (Ne.symm h)]
      exact hi.numbered y hy
  · intro x hx
    obtain ⟨y, hy, rfl⟩ := List.mem_map.mp hx
    by_cases h : b.id = y.id
    · simp only [RowWrite.flushed_id, RowWrite.flushed_currentHistoryEntryId, RowWrite.update_row, h,
        if_true, CurrentOk]
      rw [← h, historyOf_checkpointed_self db b actor agentId hi hb]
      exact ⟨e, List.mem_append_right _ (List.mem_singleton_self e), he⟩
    · simp only [RowWrite.flushed_id, RowWrite.update_row, h, if_false]
      have := hi.current y hy
      unfold CurrentOk at this ⊢
      rwa [historyOf_checkpointed_other db b actor agentId (Ne.symm h)]
  · intro h hh
    rw [hist, List.mem_append, List.mem_singleton] at hh
    rcases hh with hh | rfl
    · exact hi.snapshotsOk h (List.mem_filter.mp hh).1
    · exact hv

/-- The insert of a new block under an unused, non-empty id. -/
theorem insert (hi : HistoryInv db) {row : Block} (hnew : row.id ∉ db.blocks.map (·.id))
    (hne : row.id ≠ "") (hc : row.currentHistoryEntryId = none) :
    HistoryInv { db with blocks := db.blocks ++ [row] } := by
  have hrow : db.historyOf row.id = [] :=
    List.filter_eq_nil_iff.mpr fun h hh he => hnew (of_decide_eq_true he ▸ hi.owned h hh)
  refine ⟨?_, ?_, ?_, hi.fresh, hi.ordered, ?_, ?_, hi.snapshotsOk⟩
  · show ((db.blocks ++ [row]).map (·.id)).Nodup
    rw [List.map_append]
    exact List.pairwise_append.mpr ⟨hi.keys, List.pairwise_singleton _ _,
      fun a ha c hc => by rw [List.map_singleton, List.mem_singleton] at hc; exact hc ▸ fun h => hnew (h ▸ ha)⟩
  · intro b hb
    rcases List.mem_append.mp hb with hb | hb
    · exact hi.id_ne b hb
    · exact (List.mem_singleton.mp hb) ▸ hne
  · intro h hh
    exact List.map_append _ _ _ ▸ List.mem_append_left _ (hi.owned h hh)
  · intro b hb
    rcases List.mem_append.mp hb with hb | hb
    · exact hi.numbered b hb
    · show Numbered (db.historyOf b.id)
      rw [List.mem_singleton.mp hb, hrow]
      rfl
  · intro b hb
    rcases List.mem_append.mp hb with hb | hb
    · exact hi.current b hb
    · show CurrentOk db b
      rw [List.mem_singleton.mp hb, CurrentOk, hc]
      exact hrow

end HistoryInv

theorem currentOk_apply {db : Database} {b : Block} (u : BlockUpdate) (h : CurrentOk db b) :
    CurrentOk db (RowWrite.update b (u.apply b)).flushed :=
  HistoryInv.currentOk_congr rfl rfl h

theorem currentOk_restore {db : Database} {b : Block} {e : BlockHistory} (he : e ∈ db.historyOf b.id) :
    CurrentOk db (db.stamp (b.restore e)).flushed :=
  ⟨e, he, rfl⟩

/-! ## Every call keeps the invariant -/

theorem HistoryInv.run {db : Database} (hi : HistoryInv db) : ∀ c : Call, HistoryInv (c.run db)
  | .checkpointBlock blockId actor agentId p => by
      rw [run_checkpointBlock hi.keys]
      split
      · rename_i b hl
        split
        · exact hi.checkpoint ((loadBlock_preload_eq_ok hi.keys).mp hl).1 ‹_› actor agentId
        · exact hi
      · exact hi
  | .undoCheckpointBlock blockId actor p | .redoCheckpointBlock blockId actor p => by
      simp only [run_undoCheckpointBlock hi.keys, run_redoCheckpointBlock hi.keys]
      split
      · split
        · obtain ⟨-, e, he, rfl⟩ := moveToNeighbour_writes ‹_›
          split
          · exact hi.commitRow_none (currentOk_restore he)
          · exact hi
        · exact hi
      · exact hi
  | .updateBlock blockId u actor | .updateBlockAsync blockId u actor => by
      simp only [run_updateBlock hi.keys, run_updateBlockAsync hi.keys]
      split
      · split
        · exact hi.commitRow_none (currentOk_apply _ (hi.current _ (mem_of_readBlock ‹_›).1))
        · exact hi
      · exact hi
  | .createOrUpdateBlock block actor now | .createOrUpdateBlockAsync block actor now => by
      simp only [run_createOrUpdateBlock hi.keys, run_createOrUpdateBlockAsync hi.keys]
      split
      · split
        · exact hi.commitRow_none (currentOk_apply _ (hi.current _ (mem_of_readBlock ‹_›).1))
        · exact hi
      · split
        · exact hi
        · rename_i hnew
          refine hi.insert ?_ block.id_ne rfl
          simpa using (Bool.or_eq_false_iff.mp (Bool.eq_false_iff.mpr hnew)).2
  | .bulkUpdateBlockValuesAsync updates actor => by
      rw [run_bulkUpdateBlockValuesAsync hi.keys]
      split
      · exact hi.of_blocks_keep _ (fun x _ => (bulkCommittedRow_keeps updates actor x).1)
          fun x _ => (bulkCommittedRow_keeps updates actor x).2.2.1
      · exact hi

theorem historyInv_runCalls {db : Database} (hi : HistoryInv db) :
    ∀ calls : List Call, HistoryInv (runCalls db calls)
  | [] => hi
  | c :: cs => historyInv_runCalls (hi.run c) cs

/-! ## Undo and redo on an invariant state -/

namespace HistoryInv

variable {db : Database} {b : Block} {nb : Nat → Option Nat} {m : String} {mb : Nat → String}

/-- The move to a sequence one of the block's rows carries meets exactly that row. -/
theorem moveBlockToSequence_row (hi : HistoryInv db) (hb : b ∈ db.blocks) {e : BlockHistory}
    (he : e ∈ db.historyOf b.id) :
    moveBlockToSequence db b e.sequenceNumber = .ok (⟨none, [], [db.stamp (b.restore e)]⟩, db.stamp (b.restore e)) := by
  have h := filter_key_of_mem (·.sequenceNumber) (hi.numbered b hb).nodup he
  simp only at h
  simp only [moveBlockToSequence, hi.id_ne b hb, if_false, h]

theorem moveToNeighbour_none (hc : b.currentHistoryEntryId = none) :
    moveToNeighbour db b nb m mb = .error (.valueError m) := by
  simp [moveToNeighbour, hc]

theorem moveToNeighbour_boundary {i : Nat} {r : BlockHistory} (hc : b.currentHistoryEntryId = some i)
    (hg : db.getHistory i = some r) (ht : nb r.sequenceNumber = none) :
    moveToNeighbour db b nb m mb = .error (.valueError (mb r.sequenceNumber)) := by
  simp [moveToNeighbour, hc, hg, ht]

theorem moveToNeighbour_row (hi : HistoryInv db) (hb : b ∈ db.blocks) {i : Nat} {r e : BlockHistory}
    (hc : b.currentHistoryEntryId = some i) (hg : db.getHistory i = some r)
    (he : e ∈ db.historyOf b.id) (ht : nb r.sequenceNumber = some e.sequenceNumber) :
    moveToNeighbour db b nb m mb = .ok (⟨none, [], [db.stamp (b.restore e)]⟩, db.stamp (b.restore e)) := by
  simp only [moveToNeighbour, hc, hg, ht]
  exact hi.moveBlockToSequence_row hb he

/-- Undo from a row above the first moves to the row just below it. -/
theorem undoWrites_later (hi : HistoryInv db) (hb : b ∈ db.blocks) {i : Nat} {r : BlockHistory}
    (hc : b.currentHistoryEntryId = some i) (hg : db.getHistory i = some r) (hr : r ∈ db.historyOf b.id)
    (h1 : r.sequenceNumber ≠ 1) (blockId : String) :
    ∃ e ∈ db.historyOf b.id, e.sequenceNumber + 1 = r.sequenceNumber ∧
      undoWrites db blockId b = .ok (⟨none, [], [db.stamp (b.restore e)]⟩, db.stamp (b.restore e)) := by
  have hn := hi.numbered b hb
  have hk := hn.seq_mem hr
  have hj : r.sequenceNumber - 2 < (db.historyOf b.id).length := by omega
  refine ⟨_, List.getElem_mem hj, by rw [hn.seq_getElem hj]; omega, hi.moveToNeighbour_row hb hc hg
    (List.getElem_mem hj) ?_⟩
  rw [Database.previousSequence, hn.previous hk, if_neg h1, hn.seq_getElem hj]
  congr 1
  omega

theorem undoWrites_first (hi : HistoryInv db) (hb : b ∈ db.blocks) {i : Nat} {r : BlockHistory}
    (hc : b.currentHistoryEntryId = some i) (hg : db.getHistory i = some r)
    (hr : r ∈ db.historyOf b.id) (h1 : r.sequenceNumber = 1) (blockId : String) :
    undoWrites db blockId b = .error (.valueError ("Block " ++ blockId ++
      " is already at the earliest checkpoint (seq=" ++ toString r.sequenceNumber ++ "). Cannot undo further.")) :=
  moveToNeighbour_boundary hc hg (by
    rw [Database.previousSequence, (hi.numbered b hb).previous ((hi.numbered b hb).seq_mem hr), if_pos h1])

/-- Redo from a row below the last moves to the row just above it. -/
theorem redoWrites_earlier (hi : HistoryInv db) (hb : b ∈ db.blocks) {i : Nat} {r : BlockHistory}
    (hc : b.currentHistoryEntryId = some i) (hg : db.getHistory i = some r) (hr : r ∈ db.historyOf b.id)
    (hn' : r.sequenceNumber ≠ (db.historyOf b.id).length) (blockId : String) :
    ∃ e ∈ db.historyOf b.id, e.sequenceNumber = r.sequenceNumber + 1 ∧
      redoWrites db blockId b = .ok (⟨none, [], [db.stamp (b.restore e)]⟩, db.stamp (b.restore e)) := by
  have hn := hi.numbered b hb
  have hk := hn.seq_mem hr
  have hj : r.sequenceNumber < (db.historyOf b.id).length := by omega
  refine ⟨_, List.getElem_mem hj, hn.seq_getElem hj, hi.moveToNeighbour_row hb hc hg
    (List.getElem_mem hj) ?_⟩
  rw [Database.nextSequence, hn.next hk, if_neg hn', hn.seq_getElem hj]

theorem redoWrites_last (hi : HistoryInv db) (hb : b ∈ db.blocks) {i : Nat} {r : BlockHistory}
    (hc : b.currentHistoryEntryId = some i) (hg : db.getHistory i = some r)
    (hr : r ∈ db.historyOf b.id) (hn' : r.sequenceNumber = (db.historyOf b.id).length) (blockId : String) :
    redoWrites db blockId b = .error (.valueError ("Block " ++ blockId ++
      " is at the highest checkpoint (seq=" ++ toString r.sequenceNumber ++ "). Cannot redo further.")) :=
  moveToNeighbour_boundary hc hg (by
    rw [Database.nextSequence, (hi.numbered b hb).next ((hi.numbered b hb).seq_mem hr), if_pos hn'])

end HistoryInv

/-! ## Sequences, pointers and the undo and redo boundaries -/

/-- Two keys that both increase along a list order its elements alike. -/
theorem lt_of_pairwise_lt {α : Type} (f g : α → Nat) :
    ∀ {l : List α}, l.Pairwise (f · < f ·) → l.Pairwise (g · < g ·) →
      ∀ a ∈ l, ∀ b ∈ l, f a < f b → g a < g b
  | [], _, _ => by simp
  | x :: xs, hf, hg => by
      rw [List.pairwise_cons] at hf hg
      intro a ha b hb hab
      rcases List.mem_cons.mp ha with rfl | ha' <;> rcases List.mem_cons.mp hb with rfl | hb'
      · exact absurd hab (Nat.lt_irrefl _)
      · exact hg.1 b hb'
      · exact absurd (hf.1 a ha') (Nat.lt_asymm hab)
      · exact lt_of_pairwise_lt f g hf.2 hg.2 a ha' b hb' hab

namespace HistoryInv

variable {db : Database} {b : Block}

/-- A row created later (a larger id) has a larger sequence number. -/
theorem created_order (hi : HistoryInv db) (hb : b ∈ db.blocks) :
    ∀ r₁ ∈ db.historyOf b.id, ∀ r₂ ∈ db.historyOf b.id,
      r₁.id < r₂.id → r₁.sequenceNumber < r₂.sequenceNumber := by
  refine lt_of_pairwise_lt _ _ ?_ ?_
  · exact List.pairwise_map.mp (hi.ordered.sublist ((List.filter_sublist _).map _))
  · exact List.pairwise_map.mp ((hi.numbered b hb).eq ▸ List.pairwise_lt_range' 1 _)

/-- On an invariant state the row undo or redo restores passes the length
listener: the move commits exactly when the staging succeeds. -/
theorem transact_move_map (hi : HistoryInv db) (hb : b ∈ db.blocks) (nb : Block → Nat → Option Nat)
    (m : String) (mb : Nat → String) :
    db.transact (.ok b) (fun b => moveToNeighbour db b (nb b) m mb) =
      (moveToNeighbour db b (nb b) m mb).map fun wr => (db.commitRow wr.2.flushed none [], wr.2.flushed) := by
  rw [transact_move hi.keys hb]
  rcases hs : moveToNeighbour db b (nb b) m mb with e | ⟨w, r⟩
  · rfl
  · obtain ⟨-, e, he, rfl⟩ := moveToNeighbour_writes hs
    exact if_pos (hi.snapshotsOk e (List.mem_filter.mp he).1)

theorem undoCheckpointBlock_of_read (hi : HistoryInv db) {blockId : String} {actor : User}
    (hr : readBlock db blockId actor = .ok b) :
    undoCheckpointBlock db blockId actor none =
      (undoWrites db blockId b).map fun wr => (db.commitRow wr.2.flushed none [], wr.2.flushed) := by
  rw [undoCheckpointBlock, loadBlock, hr]
  exact hi.transact_move_map (mem_of_readBlock hr).1 (fun b => db.previousSequence b.id) _ _

theorem redoCheckpointBlock_of_read (hi : HistoryInv db) {blockId : String} {actor : User}
    (hr : readBlock db blockId actor = .ok b) :
    redoCheckpointBlock db blockId actor none =
      (redoWrites db blockId b).map fun wr => (db.commitRow wr.2.flushed none [], wr.2.flushed) := by
  rw [redoCheckpointBlock, loadBlock, hr]
  exact hi.transact_move_map (mem_of_readBlock hr).1 (fun b => db.nextSequence b.id) _ _

theorem undo_fails_iff (hi : HistoryInv db) (hb : b ∈ db.blocks) {actor : User}
    (ho : actor.organizationId = b.organizationId) :
    (∃ e, undoCheckpointBlock db b.id actor none = .error e) ↔
      b.currentHistoryEntryId = none ∨ db.currentSequence b = 1 := by
  rw [hi.undoCheckpointBlock_of_read (readBlock_of_mem hi.keys hb ho.symm)]
  rcases hc : b.currentHistoryEntryId with _ | i
  · simp [undoWrites, moveToNeighbour_none hc, Except.map]
  · obtain ⟨r, hr, -, hg⟩ := hi.currentRow hb hc
    rw [currentSequence_some hc hg]
    by_cases h1 : r.sequenceNumber = 1
    · simp [hi.undoWrites_first hb hc hg hr h1, Except.map, h1]
    · obtain ⟨e, -, -, he⟩ := hi.undoWrites_later hb hc hg hr h1 b.id
      simp [he, Except.map, h1]

theorem redo_fails_iff (hi : HistoryInv db) (hb : b ∈ db.blocks) {actor : User}
    (ho : actor.organizationId = b.organizationId) :
    (∃ e, redoCheckpointBlock db b.id actor none = .error e) ↔
      b.currentHistoryEntryId = none ∨ db.currentSequence b = (db.historyOf b.id).length := by
  rw [hi.redoCheckpointBlock_of_read (readBlock_of_mem hi.keys hb ho.symm)]
  rcases hc : b.currentHistoryEntryId with _ | i
  · simp [redoWrites, moveToNeighbour_none hc, Except.map]
  · obtain ⟨r, hr, -, hg⟩ := hi.currentRow hb hc
    rw [currentSequence_some hc hg]
    by_cases hn : r.sequenceNumber = (db.historyOf b.id).length
    · simp [hi.redoWrites_last hb hc hg hr hn, Except.map, hn]
    · obtain ⟨e, -, -, he⟩ := hi.redoWrites_earlier hb hc hg hr hn b.id
      simp [he, Except.map, hn]

theorem previousSequence_mem {x : String} {k t : Nat} (h : db.previousSequence x k = some t) :
    ∃ e ∈ db.historyOf x, e.sequenceNumber = t := by
  obtain ⟨e, he, rfl⟩ := List.mem_map.mp (List.max?_eq_some_iff'.mp h).1
  exact ⟨e, (List.mem_filter.mp he).1, rfl⟩

theorem nextSequence_mem {x : String} {k t : Nat} (h : db.nextSequence x k = some t) :
    ∃ e ∈ db.historyOf x, e.sequenceNumber = t := by
  obtain ⟨e, he, rfl⟩ := List.mem_map.mp (List.min?_eq_some_iff'.mp h).1
  exact ⟨e, (List.mem_filter.mp he).1, rfl⟩

/-- When the neighbour query only returns sequences of the block's rows, the
shared body of undo and redo fails only with a `ValueError`. -/
theorem moveToNeighbour_cases (hi : HistoryInv db) (hb : b ∈ db.blocks) {nb : Nat → Option Nat}
    {m : String} {mb : Nat → String}
    (hnb : ∀ k t, nb k = some t → ∃ e ∈ db.historyOf b.id, e.sequenceNumber = t) :
    (∃ msg, moveToNeighbour db b nb m mb = .error (.valueError msg)) ∨
      ∃ w, moveToNeighbour db b nb m mb = .ok w := by
  rcases hc : b.currentHistoryEntryId with _ | i
  · exact .inl ⟨m, moveToNeighbour_none hc⟩
  · obtain ⟨r, -, -, hg⟩ := hi.currentRow hb hc
    rcases ht : nb r.sequenceNumber with _ | t
    · exact .inl ⟨_, moveToNeighbour_boundary hc hg ht⟩
    · obtain ⟨e, he, rfl⟩ := hnb _ _ ht
      exact .inr ⟨_, hi.moveToNeighbour_row hb hc hg he ht⟩

/-- Undo and redo raise only the read's miss and their own `ValueError`s: the
`NoResultFound` branches and `MultipleResultsFound` are dead. -/
theorem undo_redo_errors (hi : HistoryInv db) (blockId : String) (actor : User) {e : BlockError}
    (h : undoCheckpointBlock db blockId actor none = .error e ∨
      redoCheckpointBlock db blockId actor none = .error e) :
    e = .notFound blockId ∨ ∃ m, e = .valueError m := by
  rcases hr : readBlock db blockId actor with e' | b
  · simp only [undoCheckpointBlock, redoCheckpointBlock, loadBlock, hr, transact_load_error,
      or_self] at h
    exact .inl ((Except.error.inj h) ▸ readBlock_error hr)
  · have hb := (mem_of_readBlock hr).1
    rw [hi.undoCheckpointBlock_of_read hr, hi.redoCheckpointBlock_of_read hr] at h
    refine .inr ?_
    rcases h with h | h
    · rcases hi.moveToNeighbour_cases hb (fun _ _ => previousSequence_mem) with ⟨m, hm⟩ | ⟨w, hw⟩
      · rw [undoWrites, hm] at h
        exact ⟨m, (Except.error.inj h).symm⟩
      · rw [undoWrites, hw] at h
        exact nomatch h
    · rcases hi.moveToNeighbour_cases hb (fun _ _ => nextSequence_mem) with ⟨m, hm⟩ | ⟨w, hw⟩
      · rw [redoWrites, hm] at h
        exact ⟨m, (Except.error.inj h).symm⟩
      · rw [redoWrites, hw] at h
        exact nomatch h

end HistoryInv

/-- **The history invariant.** In every state reached from block creation by
any run of the mutating calls, for every block: its rows carry exactly the
sequence numbers `1..n`, a row created later has a larger number, the pointer
is unset exactly when there are no rows and otherwise names one of them, and
undo (redo) fails exactly at sequence 1 (n). Undo and redo raise nothing but
the read's miss and their own `ValueError`s. -/
theorem reachable_history_wellFormed (db₀ : Database) (h₀ : Fresh db₀) (calls : List Call) :
    let db := runCalls db₀ calls
    (∀ b ∈ db.blocks,
      (∃ n, (db.historyOf b.id).map (·.sequenceNumber) = List.range' 1 n) ∧
      (∀ r₁ ∈ db.historyOf b.id, ∀ r₂ ∈ db.historyOf b.id,
        r₁.id < r₂.id → r₁.sequenceNumber < r₂.sequenceNumber) ∧
      (b.currentHistoryEntryId = none ↔ db.historyOf b.id = []) ∧
      (∀ i, b.currentHistoryEntryId = some i → ∃ r ∈ db.historyOf b.id, r.id = i) ∧
      ∀ actor : User, actor.organizationId = b.organizationId →
        ((∃ e, undoCheckpointBlock db b.id actor none = .error e) ↔
          b.currentHistoryEntryId = none ∨ db.currentSequence b = 1) ∧
        ((∃ e, redoCheckpointBlock db b.id actor none = .error e) ↔
          b.currentHistoryEntryId = none ∨ db.currentSequence b = (db.historyOf b.id).length)) ∧
    ∀ (blockId : String) (actor : User) (e : BlockError),
      (undoCheckpointBlock db blockId actor none = .error e ∨
        redoCheckpointBlock db blockId actor none = .error e) →
      e = .notFound blockId ∨ ∃ m, e = .valueError m := by
  intro db
  have hi : HistoryInv db := historyInv_runCalls h₀.historyInv calls
  refine ⟨fun b hb => ⟨⟨_, hi.numbered b hb⟩, hi.created_order hb, ?_, ?_,
    fun actor ho => ⟨hi.undo_fails_iff hb ho, hi.redo_fails_iff hb ho⟩⟩,
    fun blockId actor e h => hi.undo_redo_errors blockId actor h⟩
  · have := hi.current b hb
    unfold CurrentOk at this
    rcases hc : b.currentHistoryEntryId with _ | i
    · simpa [hc] using this
    · simp only [hc] at this
      obtain ⟨r, hr, -⟩ := this
      simpa using List.ne_nil_of_mem hr
  · intro i hc
    have := hi.current b hb
    simpa [CurrentOk, hc] using this

theorem reachable_history_wellFormed_sample :
    Fresh sampleDatabase ∧
    let db := runCalls sampleDatabase [.checkpointBlock "block-1" sampleUser none false]
    (∀ b ∈ db.blocks,
      (∃ n, (db.historyOf b.id).map (·.sequenceNumber) = List.range' 1 n) ∧
      (∀ r₁ ∈ db.historyOf b.id, ∀ r₂ ∈ db.historyOf b.id,
        r₁.id < r₂.id → r₁.sequenceNumber < r₂.sequenceNumber) ∧
      (b.currentHistoryEntryId = none ↔ db.historyOf b.id = []) ∧
      (∀ i, b.currentHistoryEntryId = some i → ∃ r ∈ db.historyOf b.id, r.id = i) ∧
      ∀ actor : User, actor.organizationId = b.organizationId →
        ((∃ e, undoCheckpointBlock db b.id actor none = .error e) ↔
          b.currentHistoryEntryId = none ∨ db.currentSequence b = 1) ∧
        ((∃ e, redoCheckpointBlock db b.id actor none = .error e) ↔
          b.currentHistoryEntryId = none ∨ db.currentSequence b = (db.historyOf b.id).length)) ∧
    ∀ (blockId : String) (actor : User) (e : BlockError),
      (undoCheckpointBlock db blockId actor none = .error e ∨
        redoCheckpointBlock db blockId actor none = .error e) →
      e = .notFound blockId ∨ ∃ m, e = .valueError m :=
  have h : Fresh sampleDatabase := ⟨by decide, by decide, rfl, by decide⟩
  ⟨h, reachable_history_wellFormed sampleDatabase h _⟩

end Letta
