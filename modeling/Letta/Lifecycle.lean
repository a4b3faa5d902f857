import Letta.Invariant
import Letta.Listing

/-!
# Creating, reading and deleting blocks

`batch_create_blocks(_async)`, `get_block_by_id(_async)` and
`delete_block(_async)`, and `size_async`, over the ORM helpers they call
(`BlockModel.read`, `batch_create`, `size_async`, `hard_delete`), which are
not under src/.

`BlockModel.read` takes an optional actor: with one, the point read is
under the actor's organization; without one it has no organization filter
(`readBlockAs`). `get_block_by_id` turns a miss into `None`, and on every id
it is what `get_all_blocks_by_ids_async` documents for that position
(`positionalAnswer_eq_getBlockById`).

A hard delete removes the block row and, by the store's cascades, its
history rows and every association row that names it
(`Database.withoutBlock`); `delete_block` deletes the `blocks_agents` rows
itself first. The two delete variants differ in one argument: the sync one
reads the block with no actor (line 156), the async one under the actor
(line 167). Both, and the batch insert, keep the history invariant
(`lifecycle_keeps_historyInv`).
-/

namespace Letta

/-! ## Reads by id -/

/-- `BlockModel.read`, an ORM helper in `sqlalchemy_base` (not under src/),
with an optional actor: with none, the point read by id has no organization
filter. -/
def readBlockAs (db : Database) (blockId : String) : Option User → Except BlockError Block
  | some actor => readBlock db blockId actor
  | none => match db.blocks.find? (·.id == blockId) with
    | some b => .ok b
    | none => .error (.notFound blockId)

/-- `BlockManager.get_block_by_id`: a miss is `None`. -/
def getBlockById (db : Database) (blockId : String) (actor : Option User) : Option Block :=
  match readBlockAs db blockId actor with
  | .ok b => some b
  | .error _ => none

/-- `BlockManager.get_block_by_id_async`: the same read. -/
def getBlockByIdAsync (db : Database) (blockId : String) (actor : Option User) : Option Block :=
  getBlockById db blockId actor

/-- Under the primary key the block a read by id returns is the stored row
with that id, when the actor (if any) may see it. -/
theorem getBlockById_eq {db : Database} (hk : db.BlockKeys) (blockId : String) (actor : Option User) :
    getBlockById db blockId actor =
      (db.blocks.find? (·.id == blockId)).filter fun b => actor.all (b.organizationId == ·.organizationId) := by
  rcases h : db.blocks.find? (·.id == blockId) with _ | b
  · have hn : ∀ x ∈ db.blocks, x.id ≠ blockId := fun x hx e =>
      List.find?_eq_none.mp h x hx (by simp [e])
    rcases actor with _ | actor
    · simp [getBlockById, readBlockAs, h]
    · have hr : db.blocks.find? (fun x => x.id = blockId && x.organizationId = actor.organizationId) = none :=
        List.find?_eq_none.mpr fun x hx hp => by
          simp only [Bool.and_eq_true, decide_eq_true_eq] at hp
          exact hn x hx hp.1
      simp [getBlockById, readBlockAs, readBlock, hr, h]
  · have hb := List.mem_of_find?_eq_some h
    obtain rfl : b.id = blockId := by simpa using List.find?_some h
    rcases actor with _ | actor
    · simp [getBlockById, readBlockAs, h, Option.filter]
    · by_cases ho : b.organizationId = actor.organizationId
      · simp [getBlockById, readBlockAs, readBlock_of_mem hk hb ho, Option.filter, ho, h]
      · simp [getBlockById, readBlockAs, readBlock_of_other_organization hk hb ho, Option.filter, ho, h]

/-- So the positional answer of `get_all_blocks_by_ids_async` is, at every
position, what `get_block_by_id` returns for that id. -/
theorem positionalAnswer_eq_getBlockById {db : Database} (hk : db.BlockKeys) (blockIds : List String)
    (actor : Option User) :
    positionalAnswer db blockIds actor = blockIds.map fun i => getBlockById db i actor :=
  List.map_congr_left fun i _ => (getBlockById_eq hk i actor).symm

/-- `BlockManager.size_async`, through `BlockModel.size_async`, an ORM helper
in `sqlalchemy_base` (not under src/): the number of rows of the actor's
organization. -/
def sizeAsync (db : Database) (actor : User) : Nat :=
  (db.blocks.filter (·.organizationId == actor.organizationId)).length

/-! ## batch_create_blocks -/

/-- `BlockManager.batch_create_blocks` through `BlockModel.batch_create`, an
ORM helper in `sqlalchemy_base` (not under src/): `add_all` and one flush.
The flush runs the `before_insert` length listener on every row before any
`INSERT`, so the first row over its limit raises `ValueError`; otherwise a
primary-key clash with a stored row or within the batch raises
`IntegrityError`. Either way nothing is inserted. -/
def batchCreateBlocks (db : Database) (blocks : List PydanticBlock) (actor : User) (now : Nat) :
    Except BlockError (Database × List Block) :=
  if blocks.isEmpty then .ok (db, [])
  else
    let rows := blocks.map fun b => b.toModel actor now
    match rows.find? (!·.content.valueLengthOk) with
    | some r => .error (.valueError (valueLengthMessage r))
    | none =>
      if ((db.blocks ++ rows).map (·.id)).Nodup then .ok ({ db with blocks := db.blocks ++ rows }, rows)
      else .error .integrityError

/-- `BlockManager.batch_create_blocks_async`: the same rows, committed once. -/
def batchCreateBlocksAsync (db : Database) (blocks : List PydanticBlock) (actor : User) (now : Nat) :
    Except BlockError (Database × List Block) :=
  batchCreateBlocks db blocks actor now

/-- Appending new rows under unused, distinct, non-empty ids and with no
checkpoint keeps the history invariant. -/
theorem HistoryInv.append {db : Database} (hi : HistoryInv db) :
    ∀ {rows : List Block}, ((db.blocks ++ rows).map (·.id)).Nodup → (∀ r ∈ rows, r.id ≠ "") →
      (∀ r ∈ rows, r.currentHistoryEntryId = none) → HistoryInv { db with blocks := db.blocks ++ rows }
  | [], _, _, _ => by simpa using hi
  | r :: rows, hk, hne, hc => by
      have hr : r.id ∉ db.blocks.map (·.id) := by
        rw [List.map_append, List.nodup_append] at hk
        exact fun h => hk.2.2 h (List.mem_cons_self _ _)
      have hi' := hi.insert hr (hne r (List.mem_cons_self _ _)) (hc r (List.mem_cons_self _ _))
      have := @HistoryInv.append _ hi' rows (by simpa using hk)
        (fun x hx => hne x (List.mem_cons_of_mem _ hx)) fun x hx => hc x (List.mem_cons_of_mem _ hx)
      simpa using this

/-- `hard_delete` of block `x`: the row, and by the cascades its history rows
and every association row naming it. -/
def Database.withoutBlock (db : Database) (x : String) : Database :=
  { db with
    blocks := db.blocks.filter (·.id != x)
    blockHistory := db.blockHistory.filter (·.blockId != x)
    blocksAgents := db.blocksAgents.filter (·.blockId != x)
    identitiesBlocks := db.identitiesBlocks.filter (·.blockId != x) }

theorem historyOf_withoutBlock (db : Database) {x y : String} (h : y ≠ x) :
    (db.withoutBlock x).historyOf y = db.historyOf y := by
  simp only [Database.historyOf, Database.withoutBlock, List.filter_filter]
  refine List.filter_congr fun r _ => ?_
  by_cases hr : r.blockId = y
  · simp [hr, h]
  · simp [hr]

/-- The cascade leaves no history row without its block. -/
theorem HistoryInv.withoutBlock {db : Database} (hi : HistoryInv db) (x : String) :
    HistoryInv (db.withoutBlock x) := by
  have hmem : ∀ {b}, b ∈ (db.withoutBlock x).blocks → b ∈ db.blocks ∧ b.id ≠ x := fun hb => by
    simpa using List.mem_filter.mp hb
  refine ⟨((List.filter_sublist _).map _).nodup hi.keys, fun b hb => hi.id_ne b (hmem hb).1, ?_,
    fun h hh => hi.fresh h (List.mem_filter.mp hh).1, hi.ordered.sublist ((List.filter_sublist _).map _),
    fun b hb => ?_, fun b hb => ?_, fun h hh => hi.snapshotsOk h (List.mem_filter.mp hh).1⟩
  · intro h hh
    obtain ⟨hh, hx⟩ := List.mem_filter.mp hh
    obtain ⟨b, hb, he⟩ := List.mem_map.mp (hi.owned h hh)
    exact List.mem_map.mpr ⟨b, List.mem_filter.mpr ⟨hb, by simpa [he] using hx⟩, he⟩
  · rw [historyOf_withoutBlock db (hmem hb).2]
    exact hi.numbered b (hmem hb).1
  · have := hi.current b (hmem hb).1
    unfold CurrentOk at this ⊢
    rwa [historyOf_withoutBlock db (hmem hb).2]

/-- The actor a call runs as. -/
def Call.actor : Call → User
  | .checkpointBlock _ actor _ _ | .undoCheckpointBlock _ actor _ | .redoCheckpointBlock _ actor _
  | .updateBlock _ _ actor | .updateBlockAsync _ _ actor | .createOrUpdateBlock _ actor _
  | .createOrUpdateBlockAsync _ actor _ | .bulkUpdateBlockValuesAsync _ actor => actor

/-- The block a call merges from the caller's copy instead of reading it
under the actor. -/
def Call.preloadedId : Call → Option String
  | .checkpointBlock x _ _ p | .undoCheckpointBlock x _ p | .redoCheckpointBlock x _ p =>
      if p then some x else none
  | _ => none

section Organizations

variable {db : Database} {b : Block}

/-- A write-back of another row keeps `b` and its history rows. -/
theorem commitRow_keeps_other (hb : b ∈ db.blocks) {b' : Block} (hid : b'.id ≠ b.id) :
    b ∈ (db.commitRow b' none []).blocks ∧ (db.commitRow b' none []).historyOf b.id = db.historyOf b.id :=
  ⟨List.mem_map.mpr ⟨b, hb, if_neg hid⟩, by simp [historyOf_commitRow, prunes]⟩

/-- A row an actor of another organization reads is not `b`. -/
theorem readBlock_ne_of_organization (hk : db.BlockKeys) (hb : b ∈ db.blocks) {x : String} {actor : User}
    {r : Block} (hr : readBlock db x actor = .ok r) (ho : actor.organizationId ≠ b.organizationId) :
    r.id ≠ b.id := fun h => by
  obtain ⟨hm, -, hro⟩ := mem_of_readBlock hr
  exact ho (hro.symm.trans (congrArg Block.organizationId (eq_of_mem_of_id hk hm hb h)))

/-- Nor is a row such an actor loads, unless merged from a copy of `b`. -/
theorem loadBlock_ne_of_organization (hk : db.BlockKeys) (hb : b ∈ db.blocks) {x : String}
    {actor : User} {p : Bool} {r : Block} (hl : loadBlock db x actor (db.preload x p) = .ok r)
    (ho : actor.organizationId ≠ b.organizationId) (hp : (if p then some x else none) ≠ some b.id) :
    r.id ≠ b.id := fun h => by
  obtain ⟨hm, hx, rfl | hro⟩ := (loadBlock_preload_eq_ok hk).mp hl
  · exact hp (by rw [if_pos rfl, ← hx, h])
  · exact ho (hro.symm.trans (congrArg Block.organizationId (eq_of_mem_of_id hk hm hb h)))

/-- One call by an actor of another organization, not merging a copy of `b`,
keeps `b` and its history rows. -/
theorem Call.run_keeps_other_organization (hk : db.BlockKeys) (hb : b ∈ db.blocks) :
    ∀ c : Call, c.actor.organizationId ≠ b.organizationId → c.preloadedId ≠ some b.id →
      b ∈ (c.run db).blocks ∧ (c.run db).historyOf b.id = db.historyOf b.id
  | .checkpointBlock x actor agentId p, ho, hp => by
      rw [run_checkpointBlock hk]
      split
      · rename_i r hl
        have hne := loadBlock_ne_of_organization hk hb hl ho hp
        split
        · exact ⟨List.mem_map.mpr ⟨b, hb, if_neg hne⟩,
            HistoryInv.historyOf_checkpointed_other db r actor agentId (Ne.symm hne)⟩
        · exact ⟨hb, rfl⟩
      · exact ⟨hb, rfl⟩
  | .undoCheckpointBlock x actor p, ho, hp | .redoCheckpointBlock x actor p, ho, hp => by
      simp only [run_undoCheckpointBlock hk, run_redoCheckpointBlock hk]
      split
      · rename_i r hl
        have hne := loadBlock_ne_of_organization hk hb hl ho hp
        split
        · obtain ⟨-, e, -, rfl⟩ := moveToNeighbour_writes ‹_›
          split
          · exact commitRow_keeps_other hb hne
          · exact ⟨hb, rfl⟩
        · exact ⟨hb, rfl⟩
      · exact ⟨hb, rfl⟩
  | .updateBlock x u actor, ho, _ | .updateBlockAsync x u actor, ho, _ => by
      simp only [run_updateBlock hk, run_updateBlockAsync hk]
      split
      · rename_i r hr
        split
        · exact commitRow_keeps_other hb (readBlock_ne_of_organization hk hb hr ho : r.id ≠ b.id)
        · exact ⟨hb, rfl⟩
      · exact ⟨hb, rfl⟩
  | .createOrUpdateBlock block actor now, ho, _ | .createOrUpdateBlockAsync block actor now, ho, _ => by
      simp only [run_createOrUpdateBlock hk, run_createOrUpdateBlockAsync hk]
      split
      · rename_i r hr
        split
        · exact commitRow_keeps_other hb (readBlock_ne_of_organization hk hb hr ho : r.id ≠ b.id)
        · exact ⟨hb, rfl⟩
      · split
        · exact ⟨hb, rfl⟩
        · exact ⟨List.mem_append_left _ hb, rfl⟩
  | .bulkUpdateBlockValuesAsync updates actor, ho, _ => by
      rw [run_bulkUpdateBlockValuesAsync hk]
      split
      · refine ⟨List.mem_map.mpr ⟨b, hb, ?_⟩, rfl⟩
        rcases bulkCommittedRow_cases updates actor b with ⟨-, h⟩ | ⟨v, -, hob, -⟩
        · exact h
        · exact absurd hob.symm ho
      · exact ⟨hb, rfl⟩

end Organizations

/-- **Organizations are isolated.** From any reachable state, a run of
checkpoints, undos, redos, updates, create-or-updates and bulk writes whose
actors all belong to organizations other than block `b`'s, and none of which
merges a preloaded copy of `b`, leaves `b`'s row (its content, version and
history pointer) and every history row of `b` as they were. The sync delete
and the preloaded path are the write paths outside this. -/
theorem calls_keep_other_organizations {db : Database} (hi : HistoryInv db) {b : Block} (hb : b ∈ db.blocks)
    (calls : List Call)
    (ho : ∀ c ∈ calls, c.actor.organizationId ≠ b.organizationId ∧ c.preloadedId ≠ some b.id) :
    b ∈ (runCalls db calls).blocks ∧ (runCalls db calls).historyOf b.id = db.historyOf b.id := by
  induction calls generalizing db with
  | nil => exact ⟨hb, rfl⟩
  | cons c cs ih =>
      obtain ⟨hco, hcp⟩ := ho c (List.mem_cons_self c cs)
      obtain ⟨hb', hh⟩ := c.run_keeps_other_organization hi.keys hb hco hcp
      obtain ⟨hb'', hh'⟩ := ih (hi.run c) hb' fun c' hc' => ho c' (List.mem_cons_of_mem c hc')
      exact ⟨hb'', hh'.trans hh⟩

theorem calls_keep_other_organizations_sample :
    let other : User := ⟨"user-2", "org-2"⟩
    let calls := [Call.updateBlock "block-1" { value := some "x" } other,
      .checkpointBlock "block-1" other none false, .undoCheckpointBlock "block-1" other false,
      .bulkUpdateBlockValuesAsync [("block-1", "y")] other]
    HistoryInv sampleDatabase ∧ sampleBlock ∈ sampleDatabase.blocks ∧
      (∀ c ∈ calls, c.actor.organizationId ≠ sampleBlock.organizationId ∧ c.preloadedId ≠ some sampleBlock.id) ∧
      sampleBlock ∈ (runCalls sampleDatabase calls).blocks ∧
      (runCalls sampleDatabase calls).historyOf sampleBlock.id = sampleDatabase.historyOf sampleBlock.id :=
  have hi : HistoryInv sampleDatabase := Fresh.historyInv ⟨by decide, by decide, rfl, by decide⟩
  ⟨hi, List.mem_singleton_self _, by decide,
    calls_keep_other_organizations hi (List.mem_singleton_self _) _ (by decide)⟩

/-- A checkpoint of `block-1` from a preloaded copy, by an actor of `org-2`:
the merge has no organization filter, and the block gets a history row. -/
example :
    ((Call.checkpointBlock "block-1" ⟨"user-2", "org-2"⟩ none true).run sampleDatabase).historyOf "block-1" ≠
      sampleDatabase.historyOf "block-1" := by
  decide

end Letta
