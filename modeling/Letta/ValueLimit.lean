import Letta.Invariant

/-!
# The value limit

`len(value) <= limit` is checked by no write path of the manager, and only
the bulk write truncates. What keeps it is the ORM's `validate_value_length`
listener (`BlockContent.valueLengthOk`): before every insert or update of a
block row it raises `ValueError` on a *non-empty* value longer than the
limit, and the transaction rolls back. So every row a call commits passes the
listener (`BlocksOk.run`). From blocks within their limits, every run keeps
every block and every history row within its limit or empty
(`value_within_limit_along`); history rows are snapshots of block rows that
passed.

The listener's `if target.value` skips an empty value. So an update that
sets only a negative limit on a block whose value is empty commits a row
with `len(value) = 0 > limit`, although the update's own value is unset
(`updateBlock_negative_limit_breaks_bound`). That is the only way the bound
breaks: a committed row outside its limit has an empty value and a negative
limit.
-/

namespace Letta

/-- `len(value) <= limit`. -/
def WithinLimit (value : String) (limit : Int) : Prop := (value.length : Int) ≤ limit

instance (value : String) (limit : Int) : Decidable (WithinLimit value limit) :=
  inferInstanceAs (Decidable (_ ≤ _))

/-- The listener lets a row through when its value is empty or within its limit. -/
theorem valueLengthOk_iff (c : BlockContent) :
    c.valueLengthOk = true ↔ c.value = "" ∨ WithinLimit c.value c.limit := by
  simp [BlockContent.valueLengthOk, WithinLimit]

theorem WithinLimit.valueLengthOk {c : BlockContent} (h : WithinLimit c.value c.limit) :
    c.valueLengthOk = true :=
  (valueLengthOk_iff c).2 (.inr h)

/-- Every block row passes the length listener. -/
def BlocksOk (db : Database) : Prop := ∀ b ∈ db.blocks, b.content.valueLengthOk = true

/-! ## What one call commits -/

section Keep

variable {db : Database}

/-- The write-back of one row that passes the listener. -/
theorem BlocksOk.commitRow (h : BlocksOk db) {b' : Block} (hb : b'.content.valueLengthOk = true)
    (p : Option (String × Nat)) (ins : List BlockHistory) : BlocksOk (db.commitRow b' p ins) := by
  intro x hx
  obtain ⟨y, hy, rfl⟩ := List.mem_map.mp hx
  split
  · exact hb
  · exact h y hy

/-- A flush of one row: committed when the row passes the listener, and
otherwise rolled back. -/
theorem BlocksOk.flush (h : BlocksOk db) (r : RowWrite) (p : Option (String × Nat))
    (ins : List BlockHistory) :
    BlocksOk (if r.row.content.valueLengthOk then db.commitRow r.flushed p ins else db) := by
  split
  · exact h.commitRow (by rwa [RowWrite.flushed_content]) p ins
  · exact h

/-- The insert branch of `create_or_update_block` adds a row that passed. -/
theorem BlocksOk.append (h : BlocksOk db) {row : Block} (hv : row.content.valueLengthOk = true) :
    BlocksOk { db with blocks := db.blocks ++ [row] } := by
  intro x hx
  rcases List.mem_append.mp hx with hx | hx
  · exact h x hx
  · exact List.mem_singleton.mp hx ▸ hv

/-- A bulk write whose staged rows all pass commits truncated rows that pass. -/
theorem BlocksOk.bulk (h : BlocksOk db) {updates : List (String × String)} {actor : User}
    (hok : (bulkWrites db updates actor).valueLengthsOk = true) :
    BlocksOk { db with blocks := db.blocks.map (bulkCommittedRow updates actor) } := by
  intro x hx
  obtain ⟨y, hy, rfl⟩ := List.mem_map.mp hx
  rcases bulkCommittedRow_cases updates actor y with ⟨-, hr⟩ | ⟨v, hl, ho, -⟩
  · rw [hr]
    exact h y hy
  · rw [bulkCommittedRow_content hl ho]
    exact valueLengthOk_of_bulkWrites hok hy hl ho

/-- Every call keeps every block row passing the listener: whatever it
commits passed it. -/
theorem BlocksOk.run (hk : db.BlockKeys) (h : BlocksOk db) : ∀ c : Call, BlocksOk (c.run db)
  | .checkpointBlock blockId actor agentId p => by
      rw [run_checkpointBlock hk]
      split
      · next b _ =>
        exact h.flush (RowWrite.update b { b with currentHistoryEntryId := some db.nextHistoryId }) _ _
      · exact h
  | .undoCheckpointBlock blockId actor p | .redoCheckpointBlock blockId actor p => by
      simp only [run_undoCheckpointBlock hk, run_redoCheckpointBlock hk]
      split
      · split
        · exact h.flush _ none []
        · exact h
      · exact h
  | .updateBlock blockId u actor | .updateBlockAsync blockId u actor => by
      simp only [run_updateBlock hk, run_updateBlockAsync hk]
      split
      · next b _ => exact h.flush (RowWrite.update b (u.apply b)) none []
      · exact h
  | .createOrUpdateBlock block actor now | .createOrUpdateBlockAsync block actor now => by
      simp only [run_createOrUpdateBlock hk, run_createOrUpdateBlockAsync hk]
      split
      · next b _ => exact h.flush (RowWrite.update b (block.toUpdate.apply b)) none []
      · split
        · exact h
        · next hnew =>
          exact h.append (by simpa using (Bool.or_eq_false_iff.mp (Bool.eq_false_iff.mpr hnew)).1)
  | .bulkUpdateBlockValuesAsync updates actor => by
      rw [run_bulkUpdateBlockValuesAsync hk]
      split
      · exact h.bulk ‹_›
      · exact h

theorem blocksOk_runCalls {db : Database} (hi : HistoryInv db) (h : BlocksOk db) :
    ∀ calls : List Call, BlocksOk (runCalls db calls)
  | [] => h
  | c :: cs => blocksOk_runCalls (hi.run c) (h.run hi.keys c) cs

end Keep

/-! ## Along a run -/

/-- **The value limit, as the listener keeps it.** From any reachable state
whose blocks are within their limits, every run, whatever its updates carry,
leaves every block row and every history row within its limit or with an
empty value. -/
theorem value_within_limit_along (db₀ : Database) (hi : HistoryInv db₀)
    (hb : ∀ b ∈ db₀.blocks, WithinLimit b.value b.limit) (calls : List Call) :
    (∀ b ∈ (runCalls db₀ calls).blocks, b.value = "" ∨ WithinLimit b.value b.limit) ∧
      ∀ h ∈ (runCalls db₀ calls).blockHistory, h.value = "" ∨ WithinLimit h.value h.limit :=
  ⟨fun b hm => (valueLengthOk_iff b.content).1
      (blocksOk_runCalls hi (fun b hm => (hb b hm).valueLengthOk) calls b hm),
    fun h hm => (valueLengthOk_iff h.content).1 ((historyInv_runCalls hi calls).snapshotsOk h hm)⟩

theorem value_within_limit_along_sample :
    let calls := [Call.checkpointBlock "block-1" sampleUser none false,
      .updateBlock "block-1" { value := some "a value over ten" } sampleUser,
      .updateBlock "block-1" { value := some "abcd", limit := some 4 } sampleUser,
      .undoCheckpointBlock "block-1" sampleUser false,
      .bulkUpdateBlockValuesAsync [("block-1", "a long value")] sampleUser]
    HistoryInv sampleDatabase ∧ (∀ b ∈ sampleDatabase.blocks, WithinLimit b.value b.limit) ∧
      (∀ b ∈ (runCalls sampleDatabase calls).blocks, b.value = "" ∨ WithinLimit b.value b.limit) ∧
      ∀ h ∈ (runCalls sampleDatabase calls).blockHistory, h.value = "" ∨ WithinLimit h.value h.limit :=
  have hi : HistoryInv sampleDatabase := Fresh.historyInv ⟨by decide, by decide, rfl, by decide⟩
  ⟨hi, by decide, value_within_limit_along sampleDatabase hi (by decide) _⟩

/-- Two updates, neither with a value outside its own limit: the first
empties the value, the second sets only the limit `-1`. The listener skips
the empty value, so the block is committed with `len(value) = 0 > -1`. -/
theorem updateBlock_negative_limit_breaks_bound :
    let us : List BlockUpdate := [{ value := some "" }, { limit := some (-1) }]
    (∀ u ∈ us, ∀ v, u.value = some v → ∀ l, u.limit = some l → WithinLimit v l) ∧
      (∀ b ∈ sampleDatabase.blocks, WithinLimit b.value b.limit) ∧
      ¬∀ b ∈ (runCalls sampleDatabase (us.map fun u => .updateBlock "block-1" u sampleUser)).blocks,
        WithinLimit b.value b.limit :=
  ⟨by simp, by decide, by decide⟩

end Letta
