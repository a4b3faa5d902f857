import Letta.Invariant

/-!
# Optimistic transactions

Each of `checkpoint_block`, `undo_checkpoint_block`, `redo_checkpoint_block`,
`update_block(_async)` and `bulk_update_block_values_async` runs in one
session. It loads the block rows it will write, reads history rows, stages
its deletes, inserts and row assignments, and commits once. At the flush the
length listener runs on every written row, and SQLAlchemy's `version_id_col`
turns each row with a net change into `UPDATE ... WHERE version = ?` against
the version loaded. A rejected row or a version mismatch rolls the whole
transaction back.

Here any number of such transactions (`Txn`) run interleaved in any order
(`World.step`):

* a `begin` loads the block rows, by the point read or from a preloaded
  copy, which the caller loaded by id with no organization filter; the
  copy's merge check is subsumed by the commit's version check;
* each `read` re-reads the history;
* a `commit` stages from what was read and flushes against the committed
  state, or rolls back.

A ghost log records, in commit order, what each committed transaction
wrote. The deletes and inserts run inside the transaction, so before the
commit no other session sees them; the model applies them at the commit.

A bulk write whose new value equals the stored one leaves its row dirty but
unchanged: the flush emits no `UPDATE` for it, so the row takes no version
check. Such a row can have been rewritten by another transaction meanwhile,
and a serial rerun of the bulk write would then write it again
(`interleaving_noop_bulk_not_serial`). So the log holds each transaction
*narrowed* to the rows its flush emitted (`Txn.narrow`), and every committed
state is the serial run of that log (`interleaving_serializable`).

The proof rests on one fact about the write paths: every path that writes
history rows also writes the block row, through `block.update(...)`, which
always emits a versioned `UPDATE` (`Later.run`). So between two committed
states, a row whose version has not moved is unchanged, and so is its
history (`Later`; along a whole serial run, `versions_never_repeat`). A
transaction that passes the version check therefore commits what its
narrowed call commits serially on the state it commits into
(`Txn.run_narrow`).

The check also decides races: a transaction stages rows loaded at its
`begin` (`Txn.writes_staged`) and a commit bumps every row it emits
(`versionOf_applyWrites`), so of two transactions that began together and
emit a common row the second to commit rolls back (`race_one_winner`).
-/

namespace Letta

/-! ## Later states -/

/-- `new` is a later committed state than `old`: the same block rows in the
same places under the same organizations, each at a version no lower; a row
whose version has not moved is unchanged, and so are its history rows. -/
structure Later (old new : Database) : Prop where
  ids : new.blocks.map (fun b => (b.id, b.organizationId)) =
    old.blocks.map (fun b => (b.id, b.organizationId))
  versions : ∀ b ∈ old.blocks, ∀ b' ∈ new.blocks, b'.id = b.id → b.version ≤ b'.version
  unmoved : ∀ b ∈ old.blocks, ∀ b' ∈ new.blocks, b'.id = b.id → b'.version = b.version →
    b' = b ∧ new.historyOf b.id = old.historyOf b.id

namespace Later

variable {a m c db : Database}

theorem refl (hk : db.BlockKeys) : Later db db :=
  ⟨rfl, fun _ hb _ hb' he => (congrArg Block.version (eq_of_mem_of_id hk hb' hb he)).ge,
    fun _ hb _ hb' he _ => ⟨eq_of_mem_of_id hk hb' hb he, rfl⟩⟩

theorem exists_id (h : Later a m) {b : Block} (hb : b ∈ a.blocks) : ∃ b' ∈ m.blocks, b'.id = b.id := by
  have := List.mem_map_of_mem (fun b : Block => (b.id, b.organizationId)) hb
  rw [← h.ids] at this
  obtain ⟨b', hb', he⟩ := List.mem_map.mp this
  exact ⟨b', hb', congrArg Prod.fst he⟩

/-- A later state has the earlier one's keys. -/
theorem keys (h : Later a m) (hk : m.BlockKeys) : a.BlockKeys := by
  have hids := congrArg (List.map Prod.fst) h.ids
  simp only [List.map_map, Function.comp_def] at hids
  unfold Database.BlockKeys at hk ⊢
  rwa [← hids]

theorem trans (h₁ : Later a m) (h₂ : Later m c) : Later a c where
  ids := h₂.ids.trans h₁.ids
  versions b hb b'' hb'' he := by
    obtain ⟨b', hb', he'⟩ := h₁.exists_id hb
    exact (h₁.versions b hb b' hb' he').trans (h₂.versions b' hb' b'' hb'' (he.trans he'.symm))
  unmoved b hb b'' hb'' he hv := by
    obtain ⟨b', hb', he'⟩ := h₁.exists_id hb
    have v₁ := h₁.versions b hb b' hb' he'
    have v₂ := h₂.versions b' hb' b'' hb'' (he.trans he'.symm)
    obtain ⟨rfl, hh₁⟩ := h₁.unmoved b hb b' hb' he' (by omega)
    obtain ⟨rfl, hh₂⟩ := h₂.unmoved b' hb' b'' hb'' (he.trans he'.symm) (by omega)
    exact ⟨rfl, hh₂.trans hh₁⟩

/-- A row read at `a` whose version at `c` is still the one read was written
neither before nor after `m`, nor were its history rows. -/
theorem unwritten (h₁ : Later a m) (h₂ : Later m c) (hk : c.BlockKeys) {b : Block}
    (hb : b ∈ a.blocks) (hv : c.versionOf b.id = some b.version) :
    b ∈ c.blocks ∧ c.historyOf b.id = a.historyOf b.id ∧ m.historyOf b.id = a.historyOf b.id := by
  obtain ⟨b', hb', he'⟩ := h₁.exists_id hb
  obtain ⟨b'', hb'', he''⟩ := h₂.exists_id hb'
  rw [← he', ← he'', versionOf_of_mem hk hb''] at hv
  have v₁ := h₁.versions b hb b' hb' he'
  have v₂ := h₂.versions b' hb' b'' hb'' he''
  have hv := Option.some.inj hv
  obtain ⟨rfl, hh₁⟩ := h₁.unmoved b hb b' hb' he' (by omega)
  obtain ⟨rfl, hh₂⟩ := h₂.unmoved b' hb' b'' hb'' he'' (by omega)
  exact ⟨hb'', hh₂.trans hh₁, hh₁⟩

/-- A write-back that keeps each row or moves it to a higher version under
its id and organization, and touches the history rows of moved rows only. -/
theorem of_map (hk : db.BlockKeys) (f : Block → Block) (hist : List BlockHistory) (n : Nat)
    (hf : ∀ x ∈ db.blocks, (f x).id = x.id ∧ (f x).organizationId = x.organizationId ∧
      (f x = x ∨ x.version < (f x).version))
    (hh : ∀ x ∈ db.blocks, f x = x → hist.filter (·.blockId = x.id) = db.historyOf x.id) :
    Later db { db with blocks := db.blocks.map f, blockHistory := hist, nextHistoryId := n } := by
  refine ⟨?_, fun b hb y hy he => ?_, fun b hb y hy he hv => ?_⟩
  · show (db.blocks.map f).map _ = _
    rw [List.map_map]
    exact List.map_congr_left fun x hx => by simp [(hf x hx).1, (hf x hx).2.1]
  · obtain ⟨x, hx, rfl⟩ := List.mem_map.mp hy
    obtain rfl := eq_of_mem_of_id hk hx hb ((hf x hx).1.symm.trans he)
    rcases (hf x hx).2.2 with h | h
    · rw [h]
    · omega
  · obtain ⟨x, hx, rfl⟩ := List.mem_map.mp hy
    obtain rfl := eq_of_mem_of_id hk hx hb ((hf x hx).1.symm.trans he)
    have hfx : f x = x := (hf x hx).2.2.resolve_right (by omega)
    exact ⟨hfx, hh x hx hfx⟩

/-- The commit of a row stored in place of `b` at a higher version, with a
prune and inserts of that row's block only. -/
theorem commitRow (hk : db.BlockKeys) {b b' : Block} (hb : b ∈ db.blocks) (hid : b'.id = b.id)
    (ho : b'.organizationId = b.organizationId) (hv : b.version < b'.version)
    {p : Option (String × Nat)} (hp : ∀ q ∈ p, q.1 = b.id) {ins : List BlockHistory}
    (hins : ∀ h ∈ ins, h.blockId = b.id) : Later db (db.commitRow b' p ins) := by
  refine of_map hk _ _ _ (fun x hx => ?_) (fun x hx hfx => ?_)
  · by_cases h : b'.id = x.id
    · obtain rfl := eq_of_mem_of_id hk hx hb (h.symm.trans hid)
      simp [h, ho, hv]
    · simp [h]
  · have hne : x.id ≠ b.id := fun he => by
      obtain rfl := eq_of_mem_of_id hk hx hb he
      simp only [hid, if_true] at hfx
      subst hfx
      omega
    have h1 : (db.historyOf x.id).filter (fun h => !prunes p h) = db.historyOf x.id := by
      refine List.filter_eq_self.mpr fun h hh => ?_
      have hx : h.blockId = x.id := of_decide_eq_true (List.mem_filter.mp hh).2
      rcases p with _ | ⟨y, k⟩
      · rfl
      · have hy : y = b.id := hp (y, k) rfl
        simp [prunes, hx, hy, hne]
    have h2 : ins.filter (·.blockId = x.id) = [] :=
      List.filter_eq_nil_iff.mpr fun h hh he => hne ((of_decide_eq_true he).symm.trans (hins h hh))
    show (db.commitRow b' p ins).historyOf x.id = _
    rw [historyOf_commitRow, h1, h2, List.append_nil]

/-- The flush of one row staged from the stored row `b`, which the listener
lets through or rolls back. -/
theorem flushRow (hk : db.BlockKeys) {b : Block} (hb : b ∈ db.blocks) (r : RowWrite) (hl : r.loaded = b)
    (hid : r.row.id = b.id) (ho : r.row.organizationId = b.organizationId)
    {p : Option (String × Nat)} (hp : ∀ q ∈ p, q.1 = b.id) {ins : List BlockHistory}
    (hins : ∀ h ∈ ins, h.blockId = b.id) :
    Later db (if r.row.content.valueLengthOk then db.commitRow r.flushed p ins else db) := by
  subst hl
  split
  · exact commitRow hk hb (show r.flushed.id = r.loaded.id from hid)
      (show r.flushed.organizationId = r.loaded.organizationId from ho) r.lt_flushed_version hp hins
  · exact refl hk

/-- The bulk write keeps every row's id and organization and bumps the rows
it changes. -/
theorem bulk (hk : db.BlockKeys) (updates : List (String × String)) (actor : User) :
    Later db (if (bulkWrites db updates actor).valueLengthsOk then
      { db with blocks := db.blocks.map (bulkCommittedRow updates actor) } else db) := by
  split
  · refine of_map hk _ db.blockHistory db.nextHistoryId (fun x _ => ?_) fun x _ _ => rfl
    obtain ⟨hid, ho, -, hv⟩ := bulkCommittedRow_keeps updates actor x
    exact ⟨hid, ho, hv.imp_right fun h => by omega⟩
  · exact refl hk

end Later

/-! ## Transactions -/

/-- A call that runs as one optimistic transaction. -/
inductive Txn where
  | checkpointBlock (blockId : String) (actor : User) (agentId : Option String) (usePreloadedBlock : Bool)
  | undoCheckpointBlock (blockId : String) (actor : User) (usePreloadedBlock : Bool)
  | redoCheckpointBlock (blockId : String) (actor : User) (usePreloadedBlock : Bool)
  | updateBlock (blockId : String) (blockUpdate : BlockUpdate) (actor : User)
  | updateBlockAsync (blockId : String) (blockUpdate : BlockUpdate) (actor : User)
  | bulkUpdateBlockValuesAsync (updates : List (String × String)) (actor : User)
deriving Repr, DecidableEq

/-- The serial call the transaction is. -/
def Txn.toCall : Txn → Call
  | .checkpointBlock x actor agentId p => .checkpointBlock x actor agentId p
  | .undoCheckpointBlock x actor p => .undoCheckpointBlock x actor p
  | .redoCheckpointBlock x actor p => .redoCheckpointBlock x actor p
  | .updateBlock x u actor => .updateBlock x u actor
  | .updateBlockAsync x u actor => .updateBlockAsync x u actor
  | .bulkUpdateBlockValuesAsync updates actor => .bulkUpdateBlockValuesAsync updates actor

/-- What the transaction stages from the state it reads: its load and
staging, up to the flush. -/
def Txn.writes (db : Database) : Txn → Except BlockError Writes
  | .checkpointBlock x actor agentId p =>
      (loadBlock db x actor (db.preload x p)).map fun b => (checkpointWrites db b actor agentId).1
  | .undoCheckpointBlock x actor p =>
      loadBlock db x actor (db.preload x p) >>= fun b => (undoWrites db x b).map Prod.fst
  | .redoCheckpointBlock x actor p =>
      loadBlock db x actor (db.preload x p) >>= fun b => (redoWrites db x b).map Prod.fst
  | .updateBlock x u actor | .updateBlockAsync x u actor =>
      (readBlock db x actor).map fun b => (updateWrites db u b).1
  | .bulkUpdateBlockValuesAsync updates actor => .ok (bulkWrites db updates actor)

/-- A serial call commits what it stages. -/
theorem Txn.run_of_writes {db db' : Database} {w : Writes} :
    ∀ t : Txn, t.writes db = .ok w → db.applyWrites w = .ok db' → t.toCall.run db = db'
  | .checkpointBlock x actor _ p, hs, ha => by
      obtain ⟨b, hr, rfl⟩ := map_eq_ok.mp hs
      show committed db (db.transact (loadBlock db x actor (db.preload x p)) _) = db'
      rw [hr, transact_ok rfl ha]
      rfl
  | .updateBlock x _ actor, hs, ha | .updateBlockAsync x _ actor, hs, ha => by
      obtain ⟨b, hr, rfl⟩ := map_eq_ok.mp hs
      show committed db (db.transact (readBlock db x actor) _) = db'
      rw [hr, transact_ok rfl ha]
      rfl
  | .undoCheckpointBlock x actor p, hs, ha | .redoCheckpointBlock x actor p, hs, ha => by
      obtain ⟨b, hr, hs⟩ := bind_eq_ok.mp hs
      obtain ⟨⟨w', b'⟩, hu, rfl⟩ := map_eq_ok.mp hs
      show committed db (db.transact (loadBlock db x actor (db.preload x p)) _) = db'
      rw [hr, transact_ok hu ha]
      rfl
  | .bulkUpdateBlockValuesAsync updates actor, hs, ha => by
      cases hs
      show (match db.applyWrites _ with
        | .ok db' => db'
        | .error _ => db) = db'
      rw [ha]

/-- Every transaction committed serially leaves a later state. -/
theorem Later.run {db : Database} (hi : HistoryInv db) : ∀ t : Txn, Later db (t.toCall.run db)
  | .checkpointBlock x actor agentId p => by
      show Later db ((Call.checkpointBlock x actor agentId p).run db)
      rw [run_checkpointBlock hi.keys]
      split
      · next b hl =>
        refine Later.flushRow hi.keys ((loadBlock_preload_eq_ok hi.keys).mp hl).1
          (RowWrite.update b { b with currentHistoryEntryId := some db.nextHistoryId }) rfl rfl rfl ?_ ?_
        · intro q hq
          cases hq
          rfl
        · intro h hh
          rw [List.mem_singleton.mp hh]
          rfl
      · exact Later.refl hi.keys
  | .undoCheckpointBlock x actor p | .redoCheckpointBlock x actor p => by
      simp only [Txn.toCall, run_undoCheckpointBlock hi.keys, run_redoCheckpointBlock hi.keys]
      split
      · next b hl =>
        have hb := ((loadBlock_preload_eq_ok hi.keys).mp hl).1
        split
        · obtain ⟨-, e, -, rfl⟩ := moveToNeighbour_writes ‹_›
          exact Later.flushRow hi.keys hb _ (by rw [stamp_of_mem hi.keys hb (Block.restore_id b e)]; rfl) rfl rfl
            (fun _ h => absurd h (Option.not_mem_none _)) fun _ h => nomatch h
        · exact Later.refl hi.keys
      · exact Later.refl hi.keys
  | .updateBlock x u actor | .updateBlockAsync x u actor => by
      simp only [Txn.toCall, run_updateBlock hi.keys, run_updateBlockAsync hi.keys]
      split
      · next b hr =>
        exact Later.flushRow hi.keys (mem_of_readBlock hr).1 (RowWrite.update b (u.apply b)) rfl rfl rfl
          (fun _ h => absurd h (Option.not_mem_none _)) fun _ h => nomatch h
      · exact Later.refl hi.keys
  | .bulkUpdateBlockValuesAsync updates actor => by
      show Later db ((Call.bulkUpdateBlockValuesAsync updates actor).run db)
      rw [run_bulkUpdateBlockValuesAsync hi.keys]
      exact Later.bulk hi.keys updates actor

/-- A serial run of transactions is later than the state it starts from. -/
theorem Later.runCalls {db : Database} (hi : HistoryInv db) :
    ∀ txns : List Txn, Later db (Letta.runCalls db (txns.map Txn.toCall))
  | [] => Later.refl hi.keys
  | t :: ts => (Later.run hi t).trans (Later.runCalls (hi.run t.toCall) ts)

/-- **A version never comes back.** Along any serial run of the
transactional calls from a reachable state, every block keeps its place, id
and organization, no block's version goes down, and a block whose version is
where it was has the same row and the same history rows. So a version check
that passes cannot pass over a changed block or its history. -/
theorem versions_never_repeat (db₀ : Database) (h₀ : HistoryInv db₀) (txns : List Txn) :
    let db := runCalls db₀ (txns.map Txn.toCall)
    db.blocks.map (fun b => (b.id, b.organizationId)) = db₀.blocks.map (fun b => (b.id, b.organizationId)) ∧
      (∀ b ∈ db₀.blocks, ∀ b' ∈ db.blocks, b'.id = b.id → b.version ≤ b'.version) ∧
      ∀ b ∈ db₀.blocks, ∀ b' ∈ db.blocks, b'.id = b.id → b'.version = b.version →
        b' = b ∧ db.historyOf b.id = db₀.historyOf b.id :=
  have h := Later.runCalls h₀ txns
  ⟨h.ids, h.versions, h.unmoved⟩

theorem versions_never_repeat_sample :
    let txns := [Txn.checkpointBlock "block-1" sampleUser none false,
      .updateBlock "block-1" { value := some "abd" } sampleUser, .undoCheckpointBlock "block-1" sampleUser true,
      .bulkUpdateBlockValuesAsync [("block-1", "abc")] sampleUser]
    let db := runCalls sampleDatabase (txns.map Txn.toCall)
    HistoryInv sampleDatabase ∧
      db.blocks.map (fun b => (b.id, b.organizationId)) =
        sampleDatabase.blocks.map (fun b => (b.id, b.organizationId)) ∧
      (∀ b ∈ sampleDatabase.blocks, ∀ b' ∈ db.blocks, b'.id = b.id → b.version ≤ b'.version) ∧
      ∀ b ∈ sampleDatabase.blocks, ∀ b' ∈ db.blocks, b'.id = b.id → b'.version = b.version →
        b' = b ∧ db.historyOf b.id = sampleDatabase.historyOf b.id :=
  have hi : HistoryInv sampleDatabase := Fresh.historyInv ⟨by decide, by decide, rfl, by decide⟩
  ⟨hi, versions_never_repeat sampleDatabase hi _⟩

/-! ## Staging against a later state -/

/-- What a transaction's staging reads: block rows as at its `begin`,
history rows as at its last `read`, and history ids fresh at its commit (the
ids the flush generates). -/
def readState (snap view db : Database) : Database :=
  { view with blocks := snap.blocks, nextHistoryId := db.nextHistoryId }

theorem versionsMatch_mem {db : Database} {rs : List RowWrite} (h : db.versionsMatch rs = true)
    {r : RowWrite} (hr : r ∈ rs) : db.versionOf r.row.id = some r.loaded.version :=
  of_decide_eq_true (List.all_eq_true.mp h r hr)

/-- A stamped row of a stored block was loaded from it. -/
theorem stamp_staged {d : Database} (hk : d.BlockKeys) {b row : Block} (hb : b ∈ d.blocks)
    (hid : row.id = b.id) : (d.stamp row).loaded ∈ d.blocks ∧ (d.stamp row).row.id = (d.stamp row).loaded.id := by
  rw [stamp_of_mem hk hb hid]
  exact ⟨hb, hid⟩

/-- A flush of one stamped write-back of a stored row passes the version
check only where the row is still at the version loaded. -/
theorem versionOf_of_applyWrites_stamp {d db db' : Database} (hk : d.BlockKeys) {b row : Block}
    (hb : b ∈ d.blocks) {p : Option (String × Nat)} {ins : List BlockHistory}
    (h : db.applyWrites ⟨p, ins, [d.stamp row]⟩ = .ok db') (hid : row.id = b.id) :
    db.versionOf b.id = some b.version := by
  obtain ⟨-, hm, -⟩ := applyWrites_eq_ok.mp h
  rw [stamp_of_mem hk hb hid] at hm
  simpa [Writes.emitted, Database.versionsMatch, hid] using hm

section Congr

variable {d₁ d₂ : Database} {b : Block}

theorem currentSequence_congr
    (hg : ∀ i, b.currentHistoryEntryId = some i → d₁.getHistory i = d₂.getHistory i) :
    d₁.currentSequence b = d₂.currentSequence b := by
  unfold Database.currentSequence
  rcases hc : b.currentHistoryEntryId with _ | i
  · rfl
  · rw [Option.some_bind, Option.some_bind, hg i hc]

theorem checkpointWrites_congr (hc : d₁.currentSequence b = d₂.currentSequence b)
    (hn : d₁.nextHistoryId = d₂.nextHistoryId)
    (hs : ∀ row : Block, row.id = b.id → d₁.stamp row = d₂.stamp row) (actor : User)
    (agentId : Option String) :
    checkpointWrites d₁ b actor agentId = checkpointWrites d₂ b actor agentId := by
  simp only [checkpointWrites, checkpointEntry, hc, hn,
    hs { b with currentHistoryEntryId := some d₂.nextHistoryId } rfl]

theorem moveToNeighbour_congr (hh : d₁.historyOf b.id = d₂.historyOf b.id)
    (hg : ∀ i, b.currentHistoryEntryId = some i → d₁.getHistory i = d₂.getHistory i)
    (hs : ∀ row : Block, row.id = b.id → d₁.stamp row = d₂.stamp row)
    (nb : Nat → Option Nat) (m : String) (mb : Nat → String) :
    moveToNeighbour d₁ b nb m mb = moveToNeighbour d₂ b nb m mb := by
  unfold moveToNeighbour moveBlockToSequence
  rcases hc : b.currentHistoryEntryId with _ | i
  · rfl
  · simp only [hg i hc, hh, hs, Block.restore_id]

theorem undoWrites_congr (hh : d₁.historyOf b.id = d₂.historyOf b.id)
    (hg : ∀ i, b.currentHistoryEntryId = some i → d₁.getHistory i = d₂.getHistory i)
    (hs : ∀ row : Block, row.id = b.id → d₁.stamp row = d₂.stamp row) (x : String) :
    undoWrites d₁ x b = undoWrites d₂ x b := by
  unfold undoWrites Database.previousSequence
  rw [hh]
  exact moveToNeighbour_congr hh hg hs _ _ _

theorem redoWrites_congr (hh : d₁.historyOf b.id = d₂.historyOf b.id)
    (hg : ∀ i, b.currentHistoryEntryId = some i → d₁.getHistory i = d₂.getHistory i)
    (hs : ∀ row : Block, row.id = b.id → d₁.stamp row = d₂.stamp row) (x : String) :
    redoWrites d₁ x b = redoWrites d₂ x b := by
  unfold redoWrites Database.nextSequence
  rw [hh]
  exact moveToNeighbour_congr hh hg hs _ _ _

/-- Two invariant states with the same history rows for a block look up its
pointer alike. -/
theorem getHistory_congr (h₁ : HistoryInv d₁) (h₂ : HistoryInv d₂) (hb : b ∈ d₁.blocks)
    (hh : d₁.historyOf b.id = d₂.historyOf b.id) :
    ∀ i, b.currentHistoryEntryId = some i → d₁.getHistory i = d₂.getHistory i := by
  intro i hc
  obtain ⟨r, hr, rfl, hg⟩ := h₁.currentRow hb hc
  rw [hg, h₂.getHistory_of_mem (List.mem_filter.mp (hh ▸ hr)).1]

end Congr

section Unwritten

variable {snap view db : Database}

/-- A row loaded at `snap` whose version at `db` is still the one loaded: the
load at `db` returns it, and `db` holds the history rows and the stored row
the staging read for it. -/
theorem loadBlock_unwritten (hv : HistoryInv view) (hd : HistoryInv db)
    (h₁ : Later snap view) (h₂ : Later view db) {x : String} {actor : User} {p : Bool} {b : Block}
    (hl : loadBlock (readState snap view db) x actor ((readState snap view db).preload x p) = .ok b)
    (hver : db.versionOf b.id = some b.version) :
    loadBlock db x actor (db.preload x p) = .ok b ∧ db.historyOf b.id = (readState snap view db).historyOf b.id ∧
      (∀ i, b.currentHistoryEntryId = some i → db.getHistory i = (readState snap view db).getHistory i) ∧
      ∀ row : Block, row.id = b.id → db.stamp row = (readState snap view db).stamp row := by
  have hks : (readState snap view db).BlockKeys := h₁.keys hv.keys
  obtain ⟨hmem, hx, ho⟩ := (loadBlock_preload_eq_ok hks).mp hl
  obtain ⟨hb, hc, hm⟩ := h₁.unwritten h₂ hd.keys hmem hver
  have hg := getHistory_congr hd hv hb (hc.trans hm.symm)
  refine ⟨(loadBlock_preload_eq_ok hd.keys).mpr ⟨hb, hx, ho⟩, hc.trans hm.symm, hg, fun row hid => ?_⟩
  rw [stamp_of_mem hd.keys hb hid, stamp_of_mem hks hmem hid]

end Unwritten

/-! ## Narrowing a bulk write

A bulk write's flush emits an `UPDATE` only for the rows whose value moved;
the others take no version check. What it commits is what a bulk write of
just the entries of the emitted rows commits serially. -/

/-- The entries of a bulk write whose rows the flush of `ws` emitted. -/
def narrowUpdates (updates : List (String × String)) (ws : Writes) : List (String × String) :=
  updates.filter fun e => ws.emitted.any (·.row.id = e.1)

/-- The transaction as far as its flush wrote: a bulk write keeps the entries
of the rows it emitted; every other transaction writes through
`block.update(...)`, whose row is always emitted. -/
def Txn.narrow (ws : Writes) : Txn → Txn
  | .bulkUpdateBlockValuesAsync updates actor => .bulkUpdateBlockValuesAsync (narrowUpdates updates ws) actor
  | t => t

theorem lookup_narrowUpdates (ws : Writes) (k : String) :
    ∀ updates : List (String × String), (narrowUpdates updates ws).lookup k =
      if ws.emitted.any (·.row.id = k) then updates.lookup k else none
  | [] => by simp [narrowUpdates]
  | (a, v) :: es => by
      have ih := lookup_narrowUpdates ws k es
      simp only [narrowUpdates] at ih ⊢
      rw [List.filter_cons]
      dsimp only
      by_cases hk : k = a
      · subst hk
        by_cases hp : (ws.emitted.any fun r => decide (r.row.id = k)) = true
        · simp only [hp, if_true, List.lookup_cons_self]
        · simp only [hp, Bool.false_eq_true, if_false, ih]
      · have hka : (k == a) = false := beq_false_of_ne hk
        split <;> simp only [List.lookup_cons, hka, ih]

section Narrow

variable {snap db : Database} {updates : List (String × String)} {actor : User}

/-- A row the flush of a bulk write staged at `snap` emits, still at its
version at `db`, is the row `db` stores, with the truncated value. -/
theorem emitted_bulk (h : Later snap db) (hk : db.BlockKeys) {r : RowWrite}
    (hr : r ∈ (bulkWrites snap updates actor).emitted) (hm : db.versionOf r.row.id = some r.loaded.version)
    {x : Block} (hx : x ∈ db.blocks) (hid : x.id = r.row.id) :
    ∃ v, updates.lookup x.id = some v ∧ x.organizationId = actor.organizationId ∧
      r = ⟨x, { x with value := truncateToLimit v x.limit }, false⟩ ∧ r.changed = true := by
  obtain ⟨hr, hc⟩ := List.mem_filter.mp hr
  rw [bulkWrites_updateBlocks] at hr
  obtain ⟨y, hy, hg⟩ := List.mem_filterMap.mp hr
  split at hg
  · obtain ⟨v, hl, rfl⟩ := Option.map_eq_some'.mp hg
    have hxv : db.versionOf x.id = some y.version := by
      rw [hid]
      exact hm
    obtain ⟨rfl, -⟩ := h.unmoved y hy x hx hid
      (Option.some.inj ((versionOf_of_mem hk hx).symm.trans hxv))
    exact ⟨v, hl, ‹_›, rfl, hc⟩
  · cases hg

/-- The narrowed entries select exactly the emitted rows. -/
theorem lookup_narrow_eq_some (h : Later snap db) (hk : db.BlockKeys)
    (hm : db.versionsMatch (bulkWrites snap updates actor).emitted = true) {x : Block} (hx : x ∈ db.blocks)
    {v : String} (hl : (narrowUpdates updates (bulkWrites snap updates actor)).lookup x.id = some v) :
    x.organizationId = actor.organizationId →
      ⟨x, { x with value := truncateToLimit v x.limit }, false⟩ ∈ (bulkWrites snap updates actor).emitted := by
  rw [lookup_narrowUpdates] at hl
  split at hl
  · obtain ⟨r, hr, hid⟩ := List.any_eq_true.mp ‹_›
    obtain ⟨v', hl', -, rfl, -⟩ := emitted_bulk h hk hr (versionsMatch_mem hm hr) hx (of_decide_eq_true hid).symm
    obtain rfl : v' = v := Option.some.inj (hl'.symm.trans hl)
    exact fun _ => hr
  · cases hl

/-- The narrowed entries write at `db` the rows the flush wrote. -/
theorem bulkCommittedRow_narrow (h : Later snap db) (hk : db.BlockKeys)
    (hm : db.versionsMatch (bulkWrites snap updates actor).emitted = true) {x : Block} (hx : x ∈ db.blocks) :
    bulkCommittedRow (narrowUpdates updates (bulkWrites snap updates actor)) actor x =
      match (bulkWrites snap updates actor).emitted.find? (·.row.id = x.id) with
      | some r => r.flushed
      | none => x := by
  split
  · next r hf =>
    have hr := List.mem_of_find?_eq_some hf
    have hid : r.row.id = x.id := by simpa using List.find?_some hf
    obtain ⟨v, hl, ho, rfl, hc⟩ := emitted_bulk h hk hr (versionsMatch_mem hm hr) hx hid.symm
    have hl' : (narrowUpdates updates (bulkWrites snap updates actor)).lookup x.id = some v := by
      rw [lookup_narrowUpdates, if_pos (List.any_eq_true.mpr ⟨_, hr, by simp⟩), hl]
    rcases bulkCommittedRow_cases (narrowUpdates updates (bulkWrites snap updates actor)) actor x with
      ⟨h' | h', -⟩ | ⟨v', hl'', -, heq⟩
    · exact absurd (h'.symm.trans hl') nofun
    · exact absurd ho h'
    · obtain rfl : v' = v := Option.some.inj (hl''.symm.trans hl')
      rw [heq, if_neg (by simpa [bulkValue_changed] using hc)]
      simp [RowWrite.flushed, RowWrite.bumps]
  · next hf =>
    refine bulkCommittedRow_unselected (.inl ?_)
    rw [lookup_narrowUpdates, if_neg]
    simpa using fun r hr => List.find?_eq_none.mp hf r hr

/-- **A bulk write commits its narrowing.** A bulk write staged at `snap`
whose flush passes at a later `db` commits what the bulk write of the
entries of its emitted rows commits serially at `db`. -/
theorem bulk_run_narrow (h : Later snap db) (hk : db.BlockKeys) {db' : Database}
    (ha : db.applyWrites (bulkWrites snap updates actor) = .ok db') :
    (Call.bulkUpdateBlockValuesAsync (narrowUpdates updates (bulkWrites snap updates actor)) actor).run db =
      db' := by
  obtain ⟨hok, hm, rfl⟩ := applyWrites_eq_ok.mp ha
  have hnarrow : (bulkWrites db (narrowUpdates updates (bulkWrites snap updates actor)) actor).valueLengthsOk := by
    simp only [Writes.valueLengthsOk, List.all_eq_true, bulkWrites_updateBlocks, List.mem_filterMap]
    rintro r ⟨x, hx, hg⟩
    split at hg
    · obtain ⟨v, hl, rfl⟩ := Option.map_eq_some'.mp hg
      exact List.all_eq_true.mp hok _ (List.mem_filter.mp (lookup_narrow_eq_some h hk hm hx hl ‹_›)).1
    · cases hg
  rw [run_bulkUpdateBlockValuesAsync hk, if_pos hnarrow]
  simp only [Database.flush, bulkWrites, prunes, Bool.not_false, List.filter_true, List.append_nil,
    List.length_nil, Nat.add_zero]
  congr 1
  exact List.map_congr_left fun x hx => bulkCommittedRow_narrow h hk hm hx

end Narrow

/-- **A commit is a serial call.** A transaction that loaded its block rows
at `snap` and read its history at `view`, and whose flush passes at a later
`db`, commits at `db` what its narrowed call commits there serially. -/
theorem Txn.run_narrow {snap view db : Database} (hv : HistoryInv view) (hd : HistoryInv db)
    (h₁ : Later snap view) (h₂ : Later view db) {ws : Writes} {db' : Database} :
    ∀ t : Txn, t.writes (readState snap view db) = .ok ws → db.applyWrites ws = .ok db' →
      (t.narrow ws).toCall.run db = db'
  | .checkpointBlock x actor agentId p, hw, ha => by
      obtain ⟨b, hl, rfl⟩ := map_eq_ok.mp hw
      have hks : (readState snap view db).BlockKeys := h₁.keys hv.keys
      have hb := ((loadBlock_preload_eq_ok hks).mp hl).1
      obtain ⟨hld, -, hg, hs⟩ :=
        loadBlock_unwritten hv hd h₁ h₂ hl (versionOf_of_applyWrites_stamp hks hb ha rfl)
      refine Txn.run_of_writes (.checkpointBlock x actor agentId p) ?_ ha
      rw [Txn.writes, hld]
      exact congrArg (fun w => Except.ok w.1)
        (checkpointWrites_congr (currentSequence_congr hg) rfl hs actor agentId)
  | .undoCheckpointBlock x actor p, hw, ha | .redoCheckpointBlock x actor p, hw, ha => by
      obtain ⟨b, hl, hs⟩ := bind_eq_ok.mp hw
      obtain ⟨⟨w', r⟩, hu, rfl⟩ := map_eq_ok.mp hs
      obtain ⟨rfl, e, -, rfl⟩ := moveToNeighbour_writes hu
      have hks : (readState snap view db).BlockKeys := h₁.keys hv.keys
      have hb := ((loadBlock_preload_eq_ok hks).mp hl).1
      obtain ⟨hld, hh, hg, hst⟩ :=
        loadBlock_unwritten hv hd h₁ h₂ hl (versionOf_of_applyWrites_stamp hks hb ha rfl)
      refine Txn.run_of_writes _ ?_ ha
      simp only [Txn.narrow, Txn.writes, hld, bind, Except.bind, undoWrites_congr hh hg hst,
        redoWrites_congr hh hg hst, hu]
      rfl
  | .updateBlock x u actor, hw, ha | .updateBlockAsync x u actor, hw, ha => by
      obtain ⟨b, hr, rfl⟩ := map_eq_ok.mp hw
      have hks : (readState snap view db).BlockKeys := h₁.keys hv.keys
      have hl : loadBlock (readState snap view db) x actor ((readState snap view db).preload x false) = .ok b := hr
      obtain ⟨hld, -, -, hs⟩ := loadBlock_unwritten hv hd h₁ h₂ hl
        (versionOf_of_applyWrites_stamp hks (mem_of_readBlock hr).1 ha rfl)
      refine Txn.run_of_writes _ ?_ ha
      show (readBlock db x actor).map (fun b => (updateWrites db u b).1) = _
      rw [show readBlock db x actor = .ok b from hld]
      exact congrArg (fun r => Except.ok (⟨none, [], [r]⟩ : Writes)) (hs _ rfl)
  | .bulkUpdateBlockValuesAsync updates actor, hw, ha => by
      cases hw
      exact bulk_run_narrow (h₁.trans h₂) hd.keys ha

/-- A transaction stages rows it loaded at its `begin`, under their ids. -/
theorem Txn.writes_staged {snap view db : Database} (hks : snap.BlockKeys) {ws : Writes} :
    ∀ t : Txn, t.writes (readState snap view db) = .ok ws →
      ∀ r ∈ ws.updateBlocks, r.loaded ∈ snap.blocks ∧ r.row.id = r.loaded.id
  | .checkpointBlock x actor _ p, h => by
      obtain ⟨b, hl, rfl⟩ := map_eq_ok.mp h
      have hb := ((loadBlock_preload_eq_ok (hks : (readState snap view db).BlockKeys)).mp hl).1
      intro r hr
      rw [List.mem_singleton.mp hr]
      exact stamp_staged hks hb rfl
  | .undoCheckpointBlock x actor p, h | .redoCheckpointBlock x actor p, h => by
      obtain ⟨b, hl, hs⟩ := bind_eq_ok.mp h
      obtain ⟨⟨w', r⟩, hu, rfl⟩ := map_eq_ok.mp hs
      obtain ⟨rfl, e, -, rfl⟩ := moveToNeighbour_writes hu
      have hb := ((loadBlock_preload_eq_ok (hks : (readState snap view db).BlockKeys)).mp hl).1
      intro r hr
      rw [List.mem_singleton.mp hr]
      exact stamp_staged hks hb rfl
  | .updateBlock x u actor, h | .updateBlockAsync x u actor, h => by
      obtain ⟨b, hr, rfl⟩ := map_eq_ok.mp h
      intro r hr'
      rw [List.mem_singleton.mp hr']
      exact stamp_staged hks (mem_of_readBlock hr).1 rfl
  | .bulkUpdateBlockValuesAsync updates actor, h => by
      cases h
      intro r hr
      rw [bulkWrites_updateBlocks] at hr
      obtain ⟨b, hb, hg⟩ := List.mem_filterMap.mp hr
      split at hg
      · obtain ⟨v, -, rfl⟩ := Option.map_eq_some'.mp hg
        exact ⟨hb, rfl⟩
      · cases hg

/-! ## Interleaved runs

Each transaction is `idle` until it begins, `active` while its session is
open, and `over` once it has committed or rolled back. It loads its block
rows at `begin` and reads history rows at each `read`; its writes stay
staged in the session until `commit`, which flushes them against the then
current state, where the listener and the version check decide. -/

/-- Where one transaction is. -/
inductive Phase where
  | idle
  | active (snap view : Database)
  | over

/-- The shared database, the transactions with their phases, and what the
transactions committed so far wrote, in commit order. -/
structure World where
  db : Database
  txns : List (Txn × Phase)
  log : List Txn

/-- One event of transaction `i`. -/
inductive Event where
  | begin (i : Nat)
  | read (i : Nat)
  | commit (i : Nat)
deriving Repr, DecidableEq

def World.init (db : Database) (txns : List Txn) : World :=
  ⟨db, txns.map fun t => (t, .idle), []⟩

def World.step (w : World) : Event → World
  | .begin i => match w.txns[i]? with
    | some (t, .idle) => { w with txns := w.txns.set i (t, .active w.db w.db) }
    | _ => w
  | .read i => match w.txns[i]? with
    | some (t, .active snap _) => { w with txns := w.txns.set i (t, .active snap w.db) }
    | _ => w
  | .commit i => match w.txns[i]? with
    | some (t, .active snap view) =>
        match t.writes (readState snap view w.db) with
        | .ok ws =>
            match w.db.applyWrites ws with
            | .ok db' => ⟨db', w.txns.set i (t, .over), w.log ++ [t.narrow ws]⟩
            | .error _ => { w with txns := w.txns.set i (t, .over) }
        | .error _ => { w with txns := w.txns.set i (t, .over) }
    | _ => w

def World.run (w : World) : List Event → World
  | [] => w
  | e :: es => (w.step e).run es

theorem runCalls_append (db : Database) (l₁ l₂ : List Call) :
    runCalls db (l₁ ++ l₂) = runCalls (runCalls db l₁) l₂ := by
  induction l₁ generalizing db with
  | nil => rfl
  | cons c cs ih => exact ih (c.run db)

theorem map_fst_set {α β : Type} {l : List (α × β)} {i : Nat} {t : α} {p q : β}
    (h : l[i]? = some (t, q)) : (l.set i (t, p)).map Prod.fst = l.map Prod.fst := by
  apply List.ext_getElem?
  intro j
  simp only [List.getElem?_map, List.getElem?_set]
  split
  · subst_vars
    simp [h, (List.getElem?_eq_some_iff.mp h).1]
  · rfl

/-- What holds of every world an interleaving reaches: the database is the
serial run of the log, the log holds given transactions narrowed to what
they wrote, and an active transaction read invariant states, each later
than the one before. -/
structure World.Inv (db₀ : Database) (txns : List Txn) (w : World) : Prop where
  serial : w.db = runCalls db₀ (w.log.map Txn.toCall)
  calls : w.txns.map Prod.fst = txns
  logged : ∀ t ∈ w.log, ∃ t' ∈ txns, ∃ ws, t = t'.narrow ws
  active : ∀ t snap view, (t, Phase.active snap view) ∈ w.txns →
    HistoryInv view ∧ Later snap view ∧ Later view w.db

section Run

variable {db₀ : Database} {txns : List Txn}

theorem World.Inv.init : (World.init db₀ txns).Inv db₀ txns where
  serial := rfl
  calls := by simp [World.init, Function.comp_def]
  logged := fun _ h => nomatch h
  active := fun _ _ _ h => by simp [World.init] at h

theorem World.Inv.historyInv (h₀ : HistoryInv db₀) {w : World} (hw : w.Inv db₀ txns) :
    HistoryInv w.db :=
  hw.serial ▸ historyInv_runCalls h₀ _

/-- A rollback marks the transaction over and changes nothing else. -/
theorem World.Inv.over {w : World} (hw : w.Inv db₀ txns) {i : Nat} {t : Txn} {p : Phase}
    (hget : w.txns[i]? = some (t, p)) : ({ w with txns := w.txns.set i (t, .over) } : World).Inv db₀ txns where
  serial := hw.serial
  calls := (map_fst_set hget).trans hw.calls
  logged := hw.logged
  active t' snap view hm := by
    rcases List.mem_or_eq_of_mem_set hm with hm | he
    · exact hw.active t' snap view hm
    · cases he

/-- A commit whose flush passes commits what the narrowed serial call
would, on the current state. -/
theorem World.Inv.commit (h₀ : HistoryInv db₀) {w : World} (hw : w.Inv db₀ txns) {i : Nat}
    {t : Txn} {snap view : Database} (hget : w.txns[i]? = some (t, .active snap view)) {ws : Writes}
    (hws : t.writes (readState snap view w.db) = .ok ws) {db' : Database} (ha : w.db.applyWrites ws = .ok db') :
    (⟨db', w.txns.set i (t, .over), w.log ++ [t.narrow ws]⟩ : World).Inv db₀ txns := by
  have hdb := hw.historyInv h₀
  obtain ⟨hvi, hsv, hvd⟩ := hw.active t snap view (List.getElem?_mem hget)
  have hrun : (t.narrow ws).toCall.run w.db = db' := Txn.run_narrow hvi hdb hsv hvd t hws ha
  refine ⟨?_, (map_fst_set hget).trans hw.calls, ?_, ?_⟩
  · rw [List.map_append, runCalls_append, ← hw.serial, ← hrun]
    rfl
  · intro t' ht'
    rcases List.mem_append.mp ht' with h | h
    · exact hw.logged t' h
    · refine ⟨t, ?_, ws, List.mem_singleton.mp h⟩
      rw [← hw.calls]
      exact List.mem_map_of_mem Prod.fst (List.getElem?_mem hget)
  · intro t' snap' view' hm
    rcases List.mem_or_eq_of_mem_set hm with hm | he
    · obtain ⟨h₁, h₂, h₃⟩ := hw.active t' snap' view' hm
      exact ⟨h₁, h₂, h₃.trans (hrun ▸ Later.run hdb (t.narrow ws))⟩
    · cases he

/-- One event keeps the invariant. -/
theorem World.Inv.step (h₀ : HistoryInv db₀) {w : World} (hw : w.Inv db₀ txns) :
    ∀ e, (w.step e).Inv db₀ txns
  | .begin i => by
      have hdb := hw.historyInv h₀
      rw [World.step]
      split
      · rename_i t hget
        refine ⟨hw.serial, (map_fst_set hget).trans hw.calls, hw.logged, fun t' snap view hm => ?_⟩
        rcases List.mem_or_eq_of_mem_set hm with hm | he
        · exact hw.active t' snap view hm
        · cases he
          exact ⟨hdb, Later.refl hdb.keys, Later.refl hdb.keys⟩
      · exact hw
  | .read i => by
      have hdb := hw.historyInv h₀
      rw [World.step]
      split
      · rename_i t snap view hget
        have hsv := (hw.active t snap view (List.getElem?_mem hget)).2
        refine ⟨hw.serial, (map_fst_set hget).trans hw.calls, hw.logged, fun t' snap' view' hm => ?_⟩
        rcases List.mem_or_eq_of_mem_set hm with hm | he
        · exact hw.active t' snap' view' hm
        · cases he
          exact ⟨hdb, hsv.1.trans hsv.2, Later.refl hdb.keys⟩
      · exact hw
  | .commit i => by
      rw [World.step]
      split
      · rename_i t snap view hget
        split
        · rename_i ws hws
          split
          · exact hw.commit h₀ hget hws ‹_›
          · exact hw.over hget
        · exact hw.over hget
      · exact hw

theorem World.Inv.run (h₀ : HistoryInv db₀) :
    ∀ {w : World}, w.Inv db₀ txns → ∀ es, (w.run es).Inv db₀ txns
  | _, hw, [] => hw
  | _, hw, e :: es => World.Inv.run h₀ (hw.step h₀ e) es

end Run

/-- An event that commits nothing leaves the database as it was. -/
theorem World.db_step_of_log (w : World) (e : Event) (h : (w.step e).log = w.log) :
    (w.step e).db = w.db := by
  cases e with
  | begin i =>
      rw [World.step]
      split <;> rfl
  | read i =>
      rw [World.step]
      split <;> rfl
  | commit i =>
      rw [World.step] at h ⊢
      split
      · rename_i hget
        split
        · rename_i hws
          split
          · rename_i ha
            simp [hget, hws, ha] at h
          · rfl
        · rfl
      · rfl

/-- **Serializability of what commits.** Interleave any transactions of the
manager, in any order of their begins, reads and commits, from any reachable
state. The state reached is the serial run of the log: the committed
transactions in commit order, each narrowed to the rows its flush emitted
and run on the state the previous one left. Only given transactions commit.
So every block's history rows carry distinct sequence numbers and its
pointer names one of them, and an event that commits nothing (a commit that
fails its listener or version check included) leaves the database as it
was. -/
theorem interleaving_serializable (db₀ : Database) (h₀ : HistoryInv db₀) (txns : List Txn)
    (events : List Event) :
    let w := (World.init db₀ txns).run events
    w.db = runCalls db₀ (w.log.map Txn.toCall) ∧ (∀ t ∈ w.log, ∃ t' ∈ txns, ∃ ws, t = t'.narrow ws) ∧
      (∀ b ∈ w.db.blocks, ((w.db.historyOf b.id).map (·.sequenceNumber)).Nodup ∧
        ∀ i, b.currentHistoryEntryId = some i → ∃ r ∈ w.db.historyOf b.id, r.id = i) ∧
      ∀ e, (w.step e).log = w.log → (w.step e).db = w.db := by
  intro w
  have hw : w.Inv db₀ txns := World.Inv.run h₀ World.Inv.init events
  have hdb := hw.historyInv h₀
  refine ⟨hw.serial, hw.logged, fun b hb => ⟨(hdb.numbered b hb).nodup, fun i hc => ?_⟩, w.db_step_of_log⟩
  obtain ⟨r, hr, rfl, -⟩ := hdb.currentRow hb hc
  exact ⟨r, hr, rfl⟩

/-- A bulk write of the stored value and an update of the same row race; the
update commits first, and the bulk write's log entry is narrowed to nothing. -/
theorem interleaving_serializable_sample :
    let txns := [Txn.bulkUpdateBlockValuesAsync [("block-1", "abc")] sampleUser,
      .updateBlock "block-1" { value := some "xyz" } sampleUser]
    let w := (World.init sampleDatabase txns).run [.begin 0, .begin 1, .commit 1, .commit 0]
    HistoryInv sampleDatabase ∧ w.db = runCalls sampleDatabase (w.log.map Txn.toCall) ∧
      (∀ t ∈ w.log, ∃ t' ∈ txns, ∃ ws, t = t'.narrow ws) ∧
      (∀ b ∈ w.db.blocks, ((w.db.historyOf b.id).map (·.sequenceNumber)).Nodup ∧
        ∀ i, b.currentHistoryEntryId = some i → ∃ r ∈ w.db.historyOf b.id, r.id = i) ∧
      ∀ e, (w.step e).log = w.log → (w.step e).db = w.db :=
  have hi : HistoryInv sampleDatabase := Fresh.historyInv ⟨by decide, by decide, rfl, by decide⟩
  ⟨hi, interleaving_serializable sampleDatabase hi _ _⟩

/-- The same race against the transactions as given: both commit, yet the
serial run of the two in commit order (the update, then the bulk write)
writes `"abc"` back, where the interleaving left `"xyz"`. -/
theorem interleaving_noop_bulk_not_serial :
    let txns := [Txn.bulkUpdateBlockValuesAsync [("block-1", "abc")] sampleUser,
      .updateBlock "block-1" { value := some "xyz" } sampleUser]
    let w := (World.init sampleDatabase txns).run [.begin 0, .begin 1, .commit 1, .commit 0]
    w.log.length = 2 ∧ w.db.blocks.map (·.value) = ["xyz"] ∧
      (runCalls sampleDatabase (txns.reverse.map Txn.toCall)).blocks.map (·.value) = ["abc"] := by
  decide

/-! ## One winner -/

theorem World.step_commit_ok {w : World} {i : Nat} {t : Txn} {snap view : Database}
    (hget : w.txns[i]? = some (t, .active snap view)) {ws : Writes}
    (hws : t.writes (readState snap view w.db) = .ok ws) {db' : Database} (ha : w.db.applyWrites ws = .ok db') :
    w.step (.commit i) = ⟨db', w.txns.set i (t, .over), w.log ++ [t.narrow ws]⟩ := by
  simp only [World.step, hget, hws, ha]

theorem World.step_commit_error {w : World} {i : Nat} {t : Txn} {snap view : Database}
    (hget : w.txns[i]? = some (t, .active snap view)) {ws : Writes}
    (hws : t.writes (readState snap view w.db) = .ok ws) {e : BlockError} (ha : w.db.applyWrites ws = .error e) :
    w.step (.commit i) = { w with txns := w.txns.set i (t, .over) } := by
  simp only [World.step, hget, hws, ha]

/-- **One winner.** Two transactions that began at the current state race,
and the flushes of both would emit an `UPDATE` of a common block row. The
first to commit wins when its rows pass the length listener; the second,
whose row the first has bumped, rolls back and leaves the database and the
log as the first left them. -/
theorem race_one_winner {db₀ : Database} (h₀ : HistoryInv db₀) {txns : List Txn} {w : World}
    (hw : w.Inv db₀ txns) {i j : Nat} (hij : i ≠ j) {t₁ t₂ : Txn} {v₁ v₂ : Database}
    (hi : w.txns[i]? = some (t₁, .active w.db v₁)) (hj : w.txns[j]? = some (t₂, .active w.db v₂))
    {ws₁ ws₂ : Writes} (hw₁ : t₁.writes (readState w.db v₁ w.db) = .ok ws₁) (hok : ws₁.valueLengthsOk = true)
    (hw₂ : t₂.writes (readState w.db v₂ (w.step (.commit i)).db) = .ok ws₂)
    (hrow : ∃ r₁ ∈ ws₁.emitted, ∃ r₂ ∈ ws₂.emitted, r₂.row.id = r₁.row.id) :
    (w.step (.commit i)).log = w.log ++ [t₁.narrow ws₁] ∧
      ((w.step (.commit i)).step (.commit j)).db = (w.step (.commit i)).db ∧
      ((w.step (.commit i)).step (.commit j)).log = (w.step (.commit i)).log := by
  obtain ⟨r₁, hr₁, r₂, hr₂, hid⟩ := hrow
  have hk := (hw.historyInv h₀).keys
  have hm₁ : w.db.versionsMatch ws₁.emitted = true := by
    simp only [Database.versionsMatch, List.all_eq_true, decide_eq_true_eq]
    intro r hr
    obtain ⟨hl, hid'⟩ := Txn.writes_staged hk t₁ hw₁ r (List.mem_filter.mp hr).1
    rw [hid']
    exact versionOf_of_mem hk hl
  have ha₁ : w.db.applyWrites ws₁ = .ok (w.db.flush ws₁) := applyWrites_eq_ok.mpr ⟨hok, hm₁, rfl⟩
  rw [World.step_commit_ok hi hw₁ ha₁] at hw₂ ⊢
  have hloaded : r₂.loaded = r₁.loaded := by
    obtain ⟨hl₁, hid₁⟩ := Txn.writes_staged hk t₁ hw₁ r₁ (List.mem_filter.mp hr₁).1
    obtain ⟨hl₂, hid₂⟩ := Txn.writes_staged hk t₂ hw₂ r₂ (List.mem_filter.mp hr₂).1
    exact eq_of_mem_of_id hk hl₂ hl₁ (hid₂.symm.trans (hid.trans hid₁))
  obtain ⟨v, hv, hlt⟩ := versionOf_applyWrites hk ha₁ hr₁
  obtain ⟨e, he⟩ : ∃ e, (w.db.flush ws₁).applyWrites ws₂ = .error e := by
    rcases ha₂ : (w.db.flush ws₁).applyWrites ws₂ with e | d
    · exact ⟨e, rfl⟩
    · have h := versionsMatch_mem (applyWrites_eq_ok.mp ha₂).2.1 hr₂
      rw [hid, hv, hloaded] at h
      exact absurd (Option.some.inj h) (Nat.ne_of_gt hlt)
  have hj' : (w.txns.set i (t₁, .over))[j]? = some (t₂, .active w.db v₂) := by
    rw [List.getElem?_set_ne hij, hj]
  rw [@World.step_commit_error ⟨w.db.flush ws₁, w.txns.set i (t₁, .over), w.log ++ [t₁.narrow ws₁]⟩ j t₂
    w.db v₂ hj' ws₂ hw₂ e he]
  exact ⟨rfl, rfl, rfl⟩

/-- Two checkpoints of one block, both begun on the sample state. -/
theorem race_one_winner_sample :
    let t := Txn.checkpointBlock "block-1" sampleUser none false
    let w := (World.init sampleDatabase [t, t]).run [.begin 0, .begin 1]
    ∃ ws₁ ws₂, HistoryInv sampleDatabase ∧ w.Inv sampleDatabase [t, t] ∧ (0 : Nat) ≠ 1 ∧
      w.txns[0]? = some (t, .active w.db sampleDatabase) ∧ w.txns[1]? = some (t, .active w.db sampleDatabase) ∧
      t.writes (readState w.db sampleDatabase w.db) = .ok ws₁ ∧ ws₁.valueLengthsOk = true ∧
      t.writes (readState w.db sampleDatabase (w.step (.commit 0)).db) = .ok ws₂ ∧
      (∃ r₁ ∈ ws₁.emitted, ∃ r₂ ∈ ws₂.emitted, r₂.row.id = r₁.row.id) ∧
      (w.step (.commit 0)).log = w.log ++ [t.narrow ws₁] ∧
      ((w.step (.commit 0)).step (.commit 1)).db = (w.step (.commit 0)).db ∧
      ((w.step (.commit 0)).step (.commit 1)).log = (w.step (.commit 0)).log := by
  intro t w
  have h₀ : HistoryInv sampleDatabase := Fresh.historyInv ⟨by decide, by decide, rfl, by decide⟩
  have hw : w.Inv sampleDatabase [t, t] := World.Inv.run h₀ World.Inv.init _
  have hi : w.txns[0]? = some (t, .active w.db sampleDatabase) := rfl
  have hj : w.txns[1]? = some (t, .active w.db sampleDatabase) := rfl
  have hw₁ : t.writes (readState w.db sampleDatabase w.db) =
      .ok (checkpointWrites (readState w.db sampleDatabase w.db) sampleBlock sampleUser none).1 := rfl
  have hw₂ : t.writes (readState w.db sampleDatabase (w.step (.commit 0)).db) =
      .ok (checkpointWrites (readState w.db sampleDatabase (w.step (.commit 0)).db) sampleBlock sampleUser none).1 :=
    rfl
  have hok : (checkpointWrites (readState w.db sampleDatabase w.db) sampleBlock sampleUser none).1.valueLengthsOk =
      true := by
    decide
  have hrow : ∃ r₁ ∈ (checkpointWrites (readState w.db sampleDatabase w.db) sampleBlock sampleUser none).1.emitted,
      ∃ r₂ ∈ (checkpointWrites (readState w.db sampleDatabase (w.step (.commit 0)).db) sampleBlock sampleUser
        none).1.emitted, r₂.row.id = r₁.row.id := by
    decide
  exact ⟨_, _, h₀, hw, by decide, hi, hj, hw₁, hok, hw₂, hrow,
    race_one_winner h₀ hw (by decide) hi hj hw₁ hok hw₂ hrow⟩

end Letta
