import Letta.History

/-!
# Direct writes

`update_block`, `update_block_async`, `create_or_update_block(_async)` and
`bulk_update_block_values_async`: the paths that write a block's fields
without taking a checkpoint.

`update_block` and its async twin read and write the same rows; the sync one
commits inside `block.update` and the async one after `to_pydantic`, which
the model does not see. The two `create_or_update` variants differ in what
they return: the sync one drops the update's result and returns `None`.

The bulk write is the one path of the manager that enforces the value
limit, by truncation against the *stored* limit
(`bulkUpdateBlockValuesAsync_spec`). It assigns `block.value` and nothing
else, so a row whose truncated value is the stored one is dirty but
unchanged: the flush runs the length listener on it and emits no `UPDATE`,
so it takes no version check and keeps its version.
-/

namespace Letta

/-! ## update_block -/

/-- The staging of `update_block`: the `setattr` loop, written back through
`block.update(...)`. -/
def updateWrites (db : Database) (blockUpdate : BlockUpdate) (block : Block) : Writes × RowWrite :=
  let row := db.stamp (blockUpdate.apply block)
  (⟨none, [], [row]⟩, row)

/-- `BlockManager.update_block`. -/
def updateBlock (db : Database) (blockId : String) (blockUpdate : BlockUpdate) (actor : User) :
    Except BlockError (Database × Block) :=
  db.transact (readBlock db blockId actor) fun block => .ok (updateWrites db blockUpdate block)

/-- `BlockManager.update_block_async`: the reads and writes of `update_block`. -/
def updateBlockAsync (db : Database) (blockId : String) (blockUpdate : BlockUpdate) (actor : User) :
    Except BlockError (Database × Block) :=
  updateBlock db blockId blockUpdate actor

/-- An update of a row the actor reads commits when the updated row passes
the length listener. -/
theorem updateBlock_of_read {db : Database} {blockId : String} {actor : User} {b : Block}
    (hk : db.BlockKeys) (hr : readBlock db blockId actor = .ok b) (u : BlockUpdate) :
    updateBlock db blockId u actor =
      if (u.apply b).content.valueLengthOk then
        .ok (db.commitRow (RowWrite.update b (u.apply b)).flushed none [], (RowWrite.update b (u.apply b)).flushed)
      else .error (.valueError (valueLengthMessage (u.apply b))) := by
  rw [updateBlock, hr]
  exact transact_stamp hk (mem_of_readBlock hr).1 _ rfl rfl

/-! ## create_or_update_block -/

/-- The `Block` schema a caller hands to `create_or_update_block`. Its id
validator (in `schemas/block.py`, not under src/) admits only generated
`block-` ids; the model keeps the part the proofs use. -/
structure PydanticBlock where
  id : String
  id_ne : id ≠ ""
  label : String
  value : String
  limit : Int
  description : Option String
  metadata : Option (List (String × String))
  isTemplate : Bool
  templateName : Option String
  projectId : Option String
deriving Repr, DecidableEq

/-- `BlockUpdate(**block.model_dump(to_orm=True, exclude_none=True))`. -/
def PydanticBlock.toUpdate (b : PydanticBlock) : BlockUpdate :=
  { value := some b.value
    limit := some b.limit
    label := some b.label
    description := b.description
    metadata := b.metadata
    isTemplate := some b.isTemplate
    templateName := b.templateName
    projectId := b.projectId }

/-- `BlockModel(**data, organization_id=actor.organization_id)`, inserted at
`now` (the `created_at` server default) with version 1 and no checkpoint. -/
def PydanticBlock.toModel (b : PydanticBlock) (actor : User) (now : Nat) : Block :=
  { id := b.id
    organizationId := actor.organizationId
    label := b.label
    description := b.description
    value := b.value
    limit := b.limit
    metadata := b.metadata
    isTemplate := b.isTemplate
    templateName := b.templateName
    projectId := b.projectId
    createdAt := now
    currentHistoryEntryId := none
    version := 1 }

/-- The insert branch. The length listener runs before the `INSERT`; then a
second row under an id the actor cannot read violates the primary key. -/
def insertBlock (db : Database) (block : PydanticBlock) (actor : User) (now : Nat) :
    Except BlockError (Database × Block) :=
  let row := block.toModel actor now
  if !row.content.valueLengthOk then .error (.valueError (valueLengthMessage row))
  else if db.blocks.any (·.id = block.id) then .error .integrityError
  else .ok ({ db with blocks := db.blocks ++ [row] }, row)

/-- `BlockManager.create_or_update_block`: the update branch returns `None`. -/
def createOrUpdateBlock (db : Database) (block : PydanticBlock) (actor : User) (now : Nat) :
    Except BlockError (Database × Option Block) :=
  match readBlock db block.id actor with
  | .ok _ => (updateBlock db block.id block.toUpdate actor).map fun (db, _) => (db, none)
  | .error _ => (insertBlock db block actor now).map fun (db, b) => (db, some b)

/-- `BlockManager.create_or_update_block_async`: returns the updated block. -/
def createOrUpdateBlockAsync (db : Database) (block : PydanticBlock) (actor : User) (now : Nat) :
    Except BlockError (Database × Option Block) :=
  match readBlock db block.id actor with
  | .ok _ => (updateBlockAsync db block.id block.toUpdate actor).map fun (db, b) => (db, some b)
  | .error _ => (insertBlock db block actor now).map fun (db, b) => (db, some b)

/-! ## bulk_update_block_values_async -/

/-- The truncation of lines 741–743. -/
def truncateToLimit (newVal : String) (limit : Int) : String :=
  if limit < newVal.length then sliceTo newVal limit else newVal

/-- The loop body for one selected block: `block.value = new_val`,
truncated, on the session's row. The row is dirty whether or not its value
moved. -/
def bulkValue (updates : List (String × String)) (block : Block) : Option RowWrite :=
  (updates.lookup block.id).map fun newVal =>
    ⟨block, { block with value := truncateToLimit newVal block.limit }, false⟩

/-- The staging of `bulk_update_block_values_async`: the blocks of the
actor's organization whose ids are keys, each with its new value. -/
def bulkWrites (db : Database) (updates : List (String × String)) (actor : User) : Writes :=
  let blocks := db.blocks.filter fun b =>
    (updates.lookup b.id).isSome && b.organizationId = actor.organizationId
  ⟨none, [], blocks.filterMap (bulkValue updates)⟩

/-- `BlockManager.bulk_update_block_values_async`; it returns `None`. -/
def bulkUpdateBlockValuesAsync (db : Database) (updates : List (String × String)) (actor : User) :
    Except BlockError Database :=
  db.applyWrites (bulkWrites db updates actor)

/-- The promised row after a bulk write: `updates[b.id][:b.limit]`, at the
next version, when the row is the actor's, its id is a key and the value
moves; the row itself otherwise. -/
def bulkRow (updates : List (String × String)) (actor : User) (b : Block) : Block :=
  match updates.lookup b.id with
  | some v => if b.organizationId = actor.organizationId ∧ sliceTo v b.limit ≠ b.value then
      { b with value := sliceTo v b.limit, version := b.version + 1 } else b
  | none => b

/-- The row the flush of the bulk write leaves in place of stored row `x`:
the row staged for it, flushed, when it changed; `x` itself otherwise. -/
def bulkCommittedRow (updates : List (String × String)) (actor : User) (x : Block) : Block :=
  match (if x.organizationId = actor.organizationId then bulkValue updates x else none) with
  | some r => if r.changed then r.flushed else x
  | none => x

/-- The staged row of a bulk write changed exactly when its value moved. -/
theorem bulkValue_changed (x : Block) (w : String) :
    (RowWrite.changed ⟨x, { x with value := w }, false⟩) = !decide (w = x.value) := by
  rw [Bool.eq_iff_iff]
  cases x
  simp [RowWrite.changed]

/-- What the flush leaves for one row: the row itself, unless its id is a key
and it is the actor's; then the row with its new value, at the next version
when the value moved. -/
theorem bulkCommittedRow_cases (updates : List (String × String)) (actor : User) (x : Block) :
    (updates.lookup x.id = none ∨ x.organizationId ≠ actor.organizationId) ∧
        bulkCommittedRow updates actor x = x ∨
      ∃ v, updates.lookup x.id = some v ∧ x.organizationId = actor.organizationId ∧
        bulkCommittedRow updates actor x =
          if truncateToLimit v x.limit = x.value then x
          else { x with value := truncateToLimit v x.limit, version := x.version + 1 } := by
  unfold bulkCommittedRow
  by_cases ho : x.organizationId = actor.organizationId
  · rcases hl : updates.lookup x.id with _ | v
    · exact .inl ⟨.inl rfl, by simp [ho, bulkValue, hl]⟩
    · refine .inr ⟨v, rfl, ho, ?_⟩
      rw [if_pos ho, bulkValue, hl, Option.map_some']
      dsimp only
      rw [bulkValue_changed]
      by_cases hv : truncateToLimit v x.limit = x.value
      · simp [hv]
      · simp [hv, RowWrite.flushed, RowWrite.bumps]
  · exact .inl ⟨.inr ho, by simp [ho]⟩

/-- The committed row keeps the id, organization and pointer of the stored
one, takes the new value when it is a selected row, and never goes back a
version. -/
theorem bulkCommittedRow_keeps (updates : List (String × String)) (actor : User) (x : Block) :
    (bulkCommittedRow updates actor x).id = x.id ∧
      (bulkCommittedRow updates actor x).organizationId = x.organizationId ∧
      (bulkCommittedRow updates actor x).currentHistoryEntryId = x.currentHistoryEntryId ∧
      (bulkCommittedRow updates actor x = x ∨
        (bulkCommittedRow updates actor x).version = x.version + 1) := by
  rcases bulkCommittedRow_cases updates actor x with ⟨-, h⟩ | ⟨v, -, -, h⟩ <;> rw [h]
  · exact ⟨rfl, rfl, rfl, .inl rfl⟩
  · split
    · exact ⟨rfl, rfl, rfl, .inl rfl⟩
    · exact ⟨rfl, rfl, rfl, .inr rfl⟩

theorem truncateToLimit_of_nonneg (v : String) {k : Int} (hk : 0 ≤ k) :
    truncateToLimit v k = sliceTo v k := by
  unfold truncateToLimit
  split
  · rfl
  · rename_i h
    rw [sliceTo, if_pos hk, String.take_eq]
    have : v.length ≤ k.toNat := by omega
    exact congrArg String.mk (List.take_of_length_le this).symm

/-- A row the bulk write does not select is left as it is. -/
theorem bulkCommittedRow_unselected {updates : List (String × String)} {actor : User} {x : Block}
    (h : updates.lookup x.id = none ∨ x.organizationId ≠ actor.organizationId) :
    bulkCommittedRow updates actor x = x := by
  rcases bulkCommittedRow_cases updates actor x with ⟨-, h'⟩ | ⟨v, hl, ho, -⟩
  · exact h'
  · rcases h with h | h
    · exact absurd (h.symm.trans hl) nofun
    · exact absurd ho h

/-- A selected row carries the truncated value, whether or not it moved. -/
theorem bulkCommittedRow_content {updates : List (String × String)} {actor : User} {x : Block} {v : String}
    (hl : updates.lookup x.id = some v) (ho : x.organizationId = actor.organizationId) :
    (bulkCommittedRow updates actor x).content = { x.content with value := truncateToLimit v x.limit } := by
  rcases bulkCommittedRow_cases updates actor x with ⟨h | h, -⟩ | ⟨v', hl', -, h⟩
  · exact absurd (h.symm.trans hl) nofun
  · exact absurd ho h
  · obtain rfl : v' = v := Option.some.inj (hl'.symm.trans hl)
    rw [h]
    split
    · rename_i heq
      rw [heq]
      rfl
    · rfl

/-- The selection and the loop body, fused: what the flush writes back. -/
theorem bulkWrites_updateBlocks (db : Database) (updates : List (String × String)) (actor : User) :
    (bulkWrites db updates actor).updateBlocks = db.blocks.filterMap fun b =>
      if b.organizationId = actor.organizationId then bulkValue updates b else none := by
  simp only [bulkWrites, List.filterMap_filter]
  congr 1
  funext b
  cases h : updates.lookup b.id <;> by_cases ho : b.organizationId = actor.organizationId <;>
    simp [bulkValue, h, ho]

/-- A bulk write whose rows pass the length listener commits, and never meets
a stale row: every emitted row is a stored row with a new value. -/
theorem bulkUpdateBlockValuesAsync_eq {db : Database} (hk : db.BlockKeys)
    {updates : List (String × String)} {actor : User}
    (h : (bulkWrites db updates actor).valueLengthsOk = true) :
    bulkUpdateBlockValuesAsync db updates actor = .ok
      { db with blocks := db.blocks.map (bulkCommittedRow updates actor) } := by
  have hg : ∀ b r, (if b.organizationId = actor.organizationId then bulkValue updates b else none) =
      some r → r.row.id = b.id ∧ r.loaded = b := by
    intro b r h
    split at h
    · obtain ⟨v, -, rfl⟩ := Option.map_eq_some'.mp h
      exact ⟨rfl, rfl⟩
    · cases h
  refine applyWrites_eq_ok.mpr ⟨h, ?_, ?_⟩
  · rw [Writes.emitted, bulkWrites_updateBlocks]
    exact versionsMatch_filterMap hk hg _
  · rw [Database.flush, Writes.emitted, bulkWrites_updateBlocks, List.filter_filterMap,
      writtenBlocks_filterMap hk fun b r h => (hg b r (Option.filter_eq_some.mp h).1).1]
    simp only [bulkWrites, prunes, Bool.not_false, List.filter_true, List.append_nil,
      List.length_nil, Nat.add_zero]
    congr 1
    refine List.map_congr_left fun x _ => ?_
    unfold bulkCommittedRow
    cases (if x.organizationId = actor.organizationId then bulkValue updates x else none) with
    | none => rfl
    | some r => by_cases hc : r.changed <;> simp [Option.filter, hc]

/-- A bulk write that passes the length listener passed it on every row it
selected. -/
theorem valueLengthOk_of_bulkWrites {db : Database} {updates : List (String × String)} {actor : User}
    (h : (bulkWrites db updates actor).valueLengthsOk = true) {x : Block} (hx : x ∈ db.blocks) {v : String}
    (hl : updates.lookup x.id = some v) (ho : x.organizationId = actor.organizationId) :
    { x.content with value := truncateToLimit v x.limit }.valueLengthOk = true := by
  simp only [Writes.valueLengthsOk, List.all_eq_true, bulkWrites_updateBlocks] at h
  exact h ⟨x, { x with value := truncateToLimit v x.limit }, false⟩
    (List.mem_filterMap.mpr ⟨x, hx, by simp [ho, bulkValue, hl]⟩)

/-- On a non-negative limit the truncated value fits. -/
theorem valueLengthOk_truncate (c : BlockContent) (v : String) (hk : 0 ≤ c.limit) :
    { c with value := truncateToLimit v c.limit }.valueLengthOk = true := by
  simp only [BlockContent.valueLengthOk, Bool.or_eq_true, decide_eq_true_eq]
  right
  rw [truncateToLimit_of_nonneg v hk, length_sliceTo_of_nonneg v hk]
  omega

/-- So on non-negative limits every row of a bulk write passes the length
listener. -/
theorem bulkWrites_valueLengthsOk {db : Database} (hlim : ∀ b ∈ db.blocks, 0 ≤ b.limit)
    (updates : List (String × String)) (actor : User) :
    (bulkWrites db updates actor).valueLengthsOk = true := by
  simp only [Writes.valueLengthsOk, List.all_eq_true, bulkWrites_updateBlocks, List.mem_filterMap]
  rintro r ⟨b, hb, h⟩
  split at h
  · obtain ⟨v, -, rfl⟩ := Option.map_eq_some'.mp h
    exact valueLengthOk_truncate b.content v (hlim b hb)
  · cases h

/-- **The bulk write.** On every database whose limits are non-negative, the
bulk update raises nothing; each row of the actor's organization whose id
is a key gets `updates[b.id][:b.limit]`, of length `min(len, limit)`, every
other row is untouched, and so are the other fields, the history and the
other tables. -/
theorem bulkUpdateBlockValuesAsync_spec (db : Database) (updates : List (String × String))
    (actor : User) (hk : db.BlockKeys) (hlim : ∀ b ∈ db.blocks, 0 ≤ b.limit) :
    ∃ db', bulkUpdateBlockValuesAsync db updates actor = .ok db' ∧
      db'.blocks = db.blocks.map (bulkRow updates actor) ∧
      (∀ b ∈ db.blocks, ∀ v, updates.lookup b.id = some v →
        b.organizationId = actor.organizationId →
        (bulkRow updates actor b).value.length = min b.limit.toNat v.length) ∧
      db'.blockHistory = db.blockHistory ∧ db'.blocksAgents = db.blocksAgents ∧
      db'.agents = db.agents ∧ db'.identities = db.identities ∧
      db'.identitiesBlocks = db.identitiesBlocks ∧ db'.nextHistoryId = db.nextHistoryId := by
  refine ⟨_, bulkUpdateBlockValuesAsync_eq hk (bulkWrites_valueLengthsOk hlim updates actor), ?_, ?_,
    rfl, rfl, rfl, rfl, rfl, rfl⟩
  · apply List.map_congr_left
    intro b hb
    rcases bulkCommittedRow_cases updates actor b with ⟨hn | hn, h⟩ | ⟨v, hl, ho, h⟩ <;> rw [h]
    · simp [bulkRow, hn]
    · unfold bulkRow
      split <;> simp [hn]
    · rw [truncateToLimit_of_nonneg _ (hlim b hb)]
      by_cases hs : sliceTo v b.limit = b.value <;> simp [bulkRow, hl, ho, hs]
  · intro b hb v hv ho
    have hlen := length_sliceTo_of_nonneg v (hlim b hb)
    by_cases hs : sliceTo v b.limit = b.value
    · simp only [bulkRow, hv, ho, hs, ne_eq, not_true_eq_false, and_false, if_false]
      rw [← hs, hlen]
    · simp only [bulkRow, hv, ho, hs, ne_eq, not_false_eq_true, and_self, if_true]
      exact hlen

theorem bulkUpdateBlockValuesAsync_spec_sample :
    sampleDatabase.BlockKeys ∧ (∀ b ∈ sampleDatabase.blocks, 0 ≤ b.limit) ∧
    ∃ db', bulkUpdateBlockValuesAsync sampleDatabase [("block-1", "a value past the limit")] sampleUser =
        .ok db' ∧
      db'.blocks = sampleDatabase.blocks.map (bulkRow [("block-1", "a value past the limit")] sampleUser) ∧
      (∀ b ∈ sampleDatabase.blocks, ∀ v, [("block-1", "a value past the limit")].lookup b.id = some v →
        b.organizationId = sampleUser.organizationId →
        (bulkRow [("block-1", "a value past the limit")] sampleUser b).value.length =
          min b.limit.toNat v.length) ∧
      db'.blockHistory = sampleDatabase.blockHistory ∧ db'.blocksAgents = sampleDatabase.blocksAgents ∧
      db'.agents = sampleDatabase.agents ∧ db'.identities = sampleDatabase.identities ∧
      db'.identitiesBlocks = sampleDatabase.identitiesBlocks ∧
      db'.nextHistoryId = sampleDatabase.nextHistoryId :=
  ⟨by decide, by decide, bulkUpdateBlockValuesAsync_spec _ _ _ (by decide) (by decide)⟩

end Letta
