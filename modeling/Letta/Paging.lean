import Letta.Listing

/-!
# Following cursors

The pager is restartable: a client passes the id of the last block of a
page as `after` and asks again, until a page comes back empty
(`collectPages`).

A page comes back sorted on a key led by `created_at` on the plain path and
by the id on the `DISTINCT` path (`BlockQuery.pageOrder`,
`getBlocksAsync_sorted`). Every row of the next page is beyond the cursor row
on both columns (`cursorCondition_iff`), hence after it in either order
(`BlockQuery.pageOrder_of_cursorCondition`). So the pages a client collects
are disjoint and come in page order, and every one lies in the window of the
first request (`collectPages_sound`). The rows beyond the cursor shrink with
each page (`afterCount_next`), so the client stops within one request per
stored block (`collectPages_ends`). `paging_ends_without_repeats` puts the
two together.

That the pages together hold every matching block, the other half of the
pager's contract, fails: the tied-cursor page of `Letta.Listing` shows the
code's conditions skipping a row, and the example after the headline shows a
client that never sees it.
-/

namespace Letta

/-- The client loop of the restartable pager: each request passes the id of
the last block of the page before as `after`, until a page comes back empty.
`none` when the pages have not ended within `fuel` requests. -/
def collectPages (db : Database) (actor : User) (q : BlockQuery) : Nat → Option (List Block)
  | 0 => none
  | fuel + 1 =>
      match (getBlocksAsync db actor q).getLast? with
      | none => some []
      | some b => (collectPages db actor { q with after := some b.id } fuel).map
          (getBlocksAsync db actor q ++ ·)

/-- The order a page comes back in: `(id, created_at)` on the `DISTINCT`
path, `(created_at, id)` otherwise, reversed when descending. -/
def BlockQuery.pageOrder (q : BlockQuery) (a b : Block) : Bool :=
  if q.needsDistinct then sortLe idKeyLt q.ascending a.idKey b.idKey
  else sortLe keyLt q.ascending a.key b.key

/-- The stored blocks a request's `after` cursor leaves: those beyond the
cursor row, all of them when the cursor resolves to none. -/
def afterCount (db : Database) (q : BlockQuery) : Nat :=
  (db.blocks.filter fun r => inWindow q.ascending (cursorKey Block.key db.blocks q.after) none r.key).length

/-! ## Cursors and the page order -/

theorem cursorCondition_self (above : Bool) (k : Nat × String) : cursorCondition above k.1 k.2 k = false := by
  cases above <;> simp [cursorCondition]

theorem cursorCondition_trans {above : Bool} {t : Nat} {i : String} {k₁ k₂ : Nat × String}
    (h₁ : cursorCondition above t i k₁ = true) (h₂ : cursorCondition above k₁.1 k₁.2 k₂ = true) :
    cursorCondition above t i k₂ = true := by
  rw [cursorCondition_iff] at h₁ h₂ ⊢
  cases above <;> simp only [if_true, Bool.false_eq_true, if_false] at h₁ h₂ ⊢
  · exact ⟨Nat.lt_trans h₂.1 h₁.1, idLt_strictTotal.trans h₂.2 h₁.2⟩
  · exact ⟨Nat.lt_trans h₁.1 h₂.1, idLt_strictTotal.trans h₁.2 h₂.2⟩

/-- A row beyond a key in the window of the cursors is in the window too:
the cursor conditions chain. -/
theorem inWindow_of_beyond {ascending : Bool} {afterKey beforeKey beforeKey' : Option (Nat × String)}
    {ℓ k : Nat × String} (hℓ : inWindow ascending afterKey beforeKey ℓ = true)
    (hk : inWindow ascending (some ℓ) beforeKey' k = true) : inWindow ascending afterKey beforeKey' k = true := by
  simp only [inWindow, Bool.and_eq_true, Option.all_some] at hℓ hk ⊢
  refine ⟨?_, hk.2⟩
  rcases afterKey with _ | ⟨t, i⟩
  · rfl
  · exact cursorCondition_trans hℓ.1 hk.1

/-- Through the `DISTINCT` order: a key beyond the cursor row is after it on
`(id, created_at)`. -/
theorem idKeyLt_of_cursorCondition {above : Bool} {t : Nat} {i : String} {k : Nat × String}
    (h : cursorCondition above t i k = true) :
    (if above then idKeyLt (i, t) (k.2, k.1) else idKeyLt (k.2, k.1) (i, t)) = true := by
  rw [cursorCondition_iff] at h
  cases above <;> simp only [if_true, Bool.false_eq_true, if_false] at h ⊢ <;> simp [idKeyLt, lexLt, h.2]

theorem StrictTotal.sortLe_of_lt {γ : Type} {lt : γ → γ → Bool} (h : StrictTotal lt) {ascending : Bool}
    {k₁ k₂ : γ} (hl : (if ascending then lt k₁ k₂ else lt k₂ k₁) = true) :
    sortLe lt ascending k₁ k₂ = true ∧ sortLe lt ascending k₂ k₁ = false := by
  cases ascending <;> simp only [if_true, Bool.false_eq_true, if_false] at hl <;>
    simp [sortLe, hl, h.asymm hl]

theorem BlockQuery.pageOrder_refl (q : BlockQuery) (a : Block) : q.pageOrder a a = true := by
  unfold BlockQuery.pageOrder sortLe
  split <;> split <;> simp [keyLt_strictTotal.irrefl, idKeyLt_strictTotal.irrefl]

theorem BlockQuery.pageOrder_trans (q : BlockQuery) {a b c : Block} (h₁ : q.pageOrder a b = true)
    (h₂ : q.pageOrder b c = true) : q.pageOrder a c = true := by
  cases hd : q.needsDistinct <;>
    simp only [BlockQuery.pageOrder, hd, if_true, Bool.false_eq_true, if_false] at h₁ h₂ ⊢
  · exact keyLt_strictTotal.sortLe_trans _ h₁ h₂
  · exact idKeyLt_strictTotal.sortLe_trans _ h₁ h₂

/-- A row beyond the cursor row `ℓ` comes after `ℓ` in the page order, and
not before it. -/
theorem BlockQuery.pageOrder_of_cursorCondition (q : BlockQuery) {ℓ y : Block}
    (h : cursorCondition q.ascending ℓ.createdAt ℓ.id y.key = true) :
    q.pageOrder ℓ y = true ∧ q.pageOrder y ℓ = false := by
  unfold BlockQuery.pageOrder
  split
  · exact idKeyLt_strictTotal.sortLe_of_lt (idKeyLt_of_cursorCondition h)
  · exact keyLt_strictTotal.sortLe_of_lt (keyLt_of_cursorCondition h)

/-! ## One page -/

section Page

variable {db : Database}

/-- Every page comes back in the page order. -/
theorem getBlocksAsync_sorted (hk : db.BlockKeys) (actor : User) (q : BlockQuery) :
    (getBlocksAsync db actor q).Sorted fun a b => q.pageOrder a b = true := by
  cases hd : q.needsDistinct
  · rw [getBlocksAsync_plain hk actor hd]
    simp only [BlockQuery.pageOrder, hd, Bool.false_eq_true, if_false]
    exact ((sortBy_sorted Block.key q.ascending keyLt_strictTotal _).filter _).sublist (applyLimit_sublist _ _)
  · rw [getBlocksAsync_distinct hk actor hd]
    simp only [BlockQuery.pageOrder, hd, if_true]
    exact ((sortBy_sorted Block.idKey q.ascending idKeyLt_strictTotal _).filter _).sublist (applyLimit_sublist _ _)

/-- No page lists an id twice, on either path. -/
theorem getBlocksAsync_ids_nodup (hk : db.BlockKeys) (actor : User) (q : BlockQuery) :
    ((getBlocksAsync db actor q).map (·.id)).Nodup := by
  cases hd : q.needsDistinct
  · rw [getBlocksAsync_plain hk actor hd]
    exact (((applyLimit_sublist _ _).trans (List.filter_sublist _)).map _).nodup
      (((sortByKey_perm _ _ _).map _).nodup_iff.mpr (((List.filter_sublist _).map _).nodup hk))
  · simp only [getBlocksAsync, hd, if_true]
    exact ((applyLimit_sublist _ _).map _).nodup (firstById_nodup _)

/-- In a sorted list every row is related to the last one, or is it. -/
theorem rel_getLast_of_sorted {α : Type} {R : α → α → Prop} {l : List α} {ℓ x : α} (hs : l.Sorted R)
    (hl : l.getLast? = some ℓ) (hx : x ∈ l) : x = ℓ ∨ R x ℓ := by
  obtain ⟨l', rfl⟩ := List.getLast?_eq_some_iff.mp hl
  rcases List.mem_append.mp hx with hx | hx
  · exact .inr ((List.pairwise_append.mp hs).2.2 x hx ℓ (List.mem_singleton_self ℓ))
  · exact .inl (List.mem_singleton.mp hx)

/-- Every row of a page is at or before the page's last row. -/
theorem pageOrder_getLast (hk : db.BlockKeys) (actor : User) (q : BlockQuery) {ℓ x : Block}
    (hl : (getBlocksAsync db actor q).getLast? = some ℓ) (hx : x ∈ getBlocksAsync db actor q) : q.pageOrder x ℓ = true := by
  rcases rel_getLast_of_sorted (getBlocksAsync_sorted hk actor q) hl hx with rfl | h
  · exact q.pageOrder_refl x
  · exact h

end Page

/-- On blocks with non-empty ids, a stored block's id resolves as a cursor
to its key. -/
theorem cursorKey_of_mem {db : Database} (hk : db.BlockKeys) {b : Block} (hb : b ∈ db.blocks)
    (hne : b.id ≠ "") : cursorKey Block.key db.blocks (some b.id) = some b.key := by
  rw [cursorKey, if_pos (by simpa [truthy] using hne)]
  exact congrArg (Option.map Block.key) (find?_key_of_mem Block.id hk hb)

theorem length_filter_lt_of_imp {α : Type} {p p' : α → Bool} {l : List α}
    (hi : ∀ x ∈ l, p' x = true → p x = true) {a : α} (ha : a ∈ l) (hp : p a = true) (hp' : p' a = false) :
    (l.filter p').length < (l.filter p).length := by
  have : l.filter p' = (l.filter p).filter p' := by
    rw [List.filter_filter]
    exact List.filter_congr fun x hx => by cases h : p' x <;> simp [h, hi x hx]
  rw [this, List.length_filter_lt_length_iff_exists]
  exact ⟨a, List.mem_filter.mpr ⟨ha, hp⟩, by simp [hp']⟩

/-! ## Along the pages -/

section Pages

variable {db : Database}

/-- The last row of a non-empty page is a stored row of the page's window,
and the next request's cursor resolves to it. -/
theorem getLast_cursor (hk : db.BlockKeys) (hne : ∀ b ∈ db.blocks, b.id ≠ "") (actor : User) {q : BlockQuery} {ℓ : Block}
    (hl : (getBlocksAsync db actor q).getLast? = some ℓ) :
    ℓ ∈ getBlocksAsync db actor q ∧ ℓ ∈ db.blocks ∧
      inWindow q.ascending (cursorKey Block.key db.blocks q.after) (cursorKey Block.key db.blocks q.before)
        ℓ.key = true ∧
      cursorKey Block.key db.blocks (some ℓ.id) = some ℓ.key := by
  obtain ⟨l', hl'⟩ := List.getLast?_eq_some_iff.mp hl
  have hℓ : ℓ ∈ getBlocksAsync db actor q := hl' ▸ List.mem_append_right l' (List.mem_singleton_self ℓ)
  obtain ⟨hm, -, -, hw⟩ := mem_getBlocksAsync hℓ
  exact ⟨hℓ, hm, hw, cursorKey_of_mem hk hm (hne ℓ hm)⟩

/-- Each non-empty page leaves fewer stored blocks beyond the cursor. -/
theorem afterCount_next (hk : db.BlockKeys) (hne : ∀ b ∈ db.blocks, b.id ≠ "") (actor : User) {q : BlockQuery} {ℓ : Block}
    (hl : (getBlocksAsync db actor q).getLast? = some ℓ) :
    afterCount db { q with after := some ℓ.id } < afterCount db q := by
  obtain ⟨-, hm, hw, hc⟩ := getLast_cursor hk hne actor hl
  have hw' : inWindow q.ascending (cursorKey Block.key db.blocks q.after) none ℓ.key = true := by
    simp only [inWindow, Bool.and_eq_true, Option.all_none] at hw ⊢
    exact ⟨hw.1, trivial⟩
  unfold afterCount
  dsimp only
  rw [hc]
  exact length_filter_lt_of_imp (fun r _ hr => inWindow_of_beyond hw' hr) hm hw'
    (by simp [inWindow, cursorCondition_self])

/-- With more requests than blocks beyond the first cursor, the pages end. -/
theorem collectPages_ends (hk : db.BlockKeys) (hne : ∀ b ∈ db.blocks, b.id ≠ "") (actor : User) :
    ∀ (fuel : Nat) (q : BlockQuery), afterCount db q < fuel → ∃ rows, collectPages db actor q fuel = some rows
  | 0, _, h => absurd h (Nat.not_lt_zero _)
  | fuel + 1, q, h => by
      rw [collectPages]
      split
      · exact ⟨[], rfl⟩
      · rename_i ℓ hl
        have := afterCount_next hk hne actor hl
        obtain ⟨rest, hr⟩ := collectPages_ends hk hne actor fuel { q with after := some ℓ.id } (by omega)
        exact ⟨_, by rw [hr]; rfl⟩

/-- What a client collects from a request on: stored blocks in the request's
window that pass its filters, in page order, none twice. -/
theorem collectPages_sound (hk : db.BlockKeys) (hne : ∀ b ∈ db.blocks, b.id ≠ "") (actor : User) :
    ∀ (fuel : Nat) (q : BlockQuery) {rows : List Block}, collectPages db actor q fuel = some rows →
      (rows.map (·.id)).Nodup ∧ (rows.Sorted fun a b => q.pageOrder a b = true) ∧
      ∀ x ∈ rows, x ∈ db.blocks ∧ q.fieldFilter actor x = true ∧ q.countFilter db x = true ∧
        inWindow q.ascending (cursorKey Block.key db.blocks q.after) (cursorKey Block.key db.blocks q.before)
          x.key = true
  | 0, _, _, h => nomatch h
  | fuel + 1, q, rows, h => by
      rw [collectPages] at h
      split at h
      · cases h
        exact ⟨List.nodup_nil, List.sorted_nil, fun _ h => nomatch h⟩
      · rename_i ℓ hl
        obtain ⟨rest, hr, rfl⟩ := Option.map_eq_some'.mp h
        obtain ⟨hn, hs, hm⟩ := collectPages_sound hk hne actor fuel _ hr
        obtain ⟨-, -, hw, hc⟩ := getLast_cursor hk hne actor hl
        have hbeyond {y : Block} (hy : y ∈ rest) :
            cursorCondition q.ascending ℓ.createdAt ℓ.id y.key = true := by
          have := (hm y hy).2.2.2
          simp only [hc, inWindow, Option.all_some, Bool.and_eq_true] at this
          exact this.1
        refine ⟨?_, ?_, fun x hx => ?_⟩
        · rw [List.map_append, List.nodup_append]
          refine ⟨getBlocksAsync_ids_nodup hk actor q, hn, fun a ha ha' => ?_⟩
          obtain ⟨x, hx, rfl⟩ := List.mem_map.mp ha
          obtain ⟨y, hy, he⟩ := List.mem_map.mp ha'
          obtain rfl := eq_of_mem_of_id hk (hm y hy).1 (mem_getBlocksAsync hx).1 he
          have := (q.pageOrder_of_cursorCondition (hbeyond hy)).2
          rw [pageOrder_getLast hk actor q hl hx] at this
          cases this
        · refine List.pairwise_append.mpr ⟨getBlocksAsync_sorted hk actor q, hs, fun x hx y hy => ?_⟩
          exact q.pageOrder_trans (pageOrder_getLast hk actor q hl hx)
            (q.pageOrder_of_cursorCondition (hbeyond hy)).1
        · rcases List.mem_append.mp hx with hx | hx
          · exact mem_getBlocksAsync hx
          · obtain ⟨hmx, hf, hcf, hwx⟩ := hm x hx
            exact ⟨hmx, hf, hcf, inWindow_of_beyond hw (hc ▸ hwx)⟩

/-- **Paging through a listing.** On blocks with distinct, non-empty ids, a
client that follows `after` cursors (each request passing the id of the last
block of the page before, until a page comes back empty) stops within one
request per stored block, plus one. It collects no block twice, and collects
the blocks in the order a page comes back in: `(created_at, id)` on the
plain path, `(id, created_at)` on the `DISTINCT` path. Every block it
collects is a stored block of the actor's organization that passes the
field and count filters and lies in the first request's window. -/
theorem paging_ends_without_repeats {db : Database} (hk : db.BlockKeys) (hne : ∀ b ∈ db.blocks, b.id ≠ "")
    (actor : User) (q : BlockQuery) :
    ∃ rows, collectPages db actor q (db.blocks.length + 1) = some rows ∧ (rows.map (·.id)).Nodup ∧
      (rows.Sorted fun a b => q.pageOrder a b = true) ∧
      ∀ b ∈ rows, b ∈ db.blocks ∧ b.organizationId = actor.organizationId ∧ q.fieldFilter actor b = true ∧
        q.countFilter db b = true ∧
        inWindow q.ascending (cursorKey Block.key db.blocks q.after) (cursorKey Block.key db.blocks q.before)
          b.key = true := by
  obtain ⟨rows, h⟩ := collectPages_ends hk hne actor _ q (Nat.lt_succ_of_le (List.length_filter_le _ _))
  obtain ⟨hn, hs, hm⟩ := collectPages_sound hk hne actor _ q h
  refine ⟨rows, h, hn, hs, fun b hb => ?_⟩
  obtain ⟨hmb, hf, hc, hw⟩ := hm b hb
  exact ⟨hmb, BlockQuery.organizationId_of_fieldFilter hf, hf, hc, hw⟩

theorem paging_ends_without_repeats_sample :
    tiedDatabase.BlockKeys ∧ (∀ b ∈ tiedDatabase.blocks, b.id ≠ "") ∧
      ∃ rows, collectPages tiedDatabase sampleUser { limit := some 1 } (tiedDatabase.blocks.length + 1) =
          some rows ∧ (rows.map (·.id)).Nodup ∧
        (rows.Sorted fun a b => BlockQuery.pageOrder { limit := some 1 } a b = true) ∧
        ∀ b ∈ rows, b ∈ tiedDatabase.blocks ∧ b.organizationId = sampleUser.organizationId ∧
          BlockQuery.fieldFilter { limit := some 1 } sampleUser b = true ∧
          BlockQuery.countFilter { limit := some 1 } tiedDatabase b = true ∧
          inWindow true (cursorKey Block.key tiedDatabase.blocks none)
            (cursorKey Block.key tiedDatabase.blocks none) b.key = true :=
  ⟨by decide, by decide, paging_ends_without_repeats (by decide) (by decide) sampleUser { limit := some 1 }⟩

/-- Pages of one row over two blocks created in the same tick: the client
stops after the first, never seeing `b2`. -/
example : collectPages tiedDatabase sampleUser { limit := some 1 } 3 = some [listedBlock "b1" 0] := by
  decide

end Pages

/-! ## When ids follow creation time

The code's cursor conditions ask for a later `created_at` *and* a later id.
Where the two columns agree, so that of two stored blocks the one first in
`(created_at, id)` order is first on both (`Database.TimeOrdered`), that is
the reference window (`inWindow_eq_reference_of_timeOrdered`), and the
`DISTINCT` order by id is the order by key. Then every page is the next run
of the reference sequence, and the pages together are all of it
(`paging_complete_of_timeOrdered`). -/

/-- Ids follow creation time: of two stored blocks, the one first in
`(created_at, id)` order is first on both columns. -/
def Database.TimeOrdered (db : Database) : Prop :=
  ∀ a ∈ db.blocks, ∀ b ∈ db.blocks, keyLt a.key b.key = true → a.createdAt < b.createdAt ∧ idLt a.id b.id = true

instance (db : Database) : Decidable db.TimeOrdered :=
  inferInstanceAs (Decidable (∀ a ∈ db.blocks, ∀ b ∈ db.blocks,
    keyLt a.key b.key = true → a.createdAt < b.createdAt ∧ idLt a.id b.id = true))

/-- The blocks a query matches: stored blocks that pass the field and count
filters and make at least one row through the identity joins. -/
def BlockQuery.matching (q : BlockQuery) (db : Database) (actor : User) : List Block :=
  (db.blocks.filter fun b => q.fieldFilter actor b && q.countFilter db b).filter fun b => 0 < q.identityRows db b

theorem StrictTotal.lt_of_sortLe {γ : Type} {lt : γ → γ → Bool} (h : StrictTotal lt) {ascending : Bool}
    {k₁ k₂ : γ} (hle : sortLe lt ascending k₁ k₂ = true) (hne : k₁ ≠ k₂) :
    (if ascending then lt k₁ k₂ else lt k₂ k₁) = true := by
  cases ascending <;> simp only [sortLe, if_true, Bool.false_eq_true, if_false, Bool.not_eq_true'] at hle ⊢
  · exact (h.total hne).resolve_left (by simp [hle])
  · exact (h.total hne).resolve_right (by simp [hle])

/-- On distinct keys a sort is strict. -/
theorem sortBy_strict {α γ : Type} {lt : γ → γ → Bool} (h : StrictTotal lt) (key : α → γ) (ascending : Bool)
    {rows : List α} (hk : (rows.map key).Nodup) :
    (sortBy lt key ascending rows).Pairwise fun a b =>
      (if ascending then lt (key a) (key b) else lt (key b) (key a)) = true := by
  have hn : ((sortBy lt key ascending rows).map key).Nodup := ((sortBy_perm key ascending rows).map key).nodup_iff.mpr hk
  exact ((sortBy_sorted key ascending h rows).and (List.pairwise_map.mp hn)).imp fun hab => h.lt_of_sortLe hab.1 hab.2

/-- In a strictly sorted list cut after the row `ℓ`, the rows after `ℓ` are the rest. -/
theorem filter_after_eq_drop {α γ : Type} {lt : γ → γ → Bool} (h : StrictTotal lt) {key : α → γ}
    {ascending : Bool} {l₁ l₂ : List α} {ℓ : α}
    (hs : (l₁ ++ l₂).Pairwise fun a b => (if ascending then lt (key a) (key b) else lt (key b) (key a)) = true)
    (hl : l₁.getLast? = some ℓ) :
    (l₁ ++ l₂).filter (fun b => if ascending then lt (key ℓ) (key b) else lt (key b) (key ℓ)) = l₂ := by
  obtain ⟨hs₁, -, hs₁₂⟩ := List.pairwise_append.mp hs
  have hℓ : ℓ ∈ l₁ := by
    obtain ⟨l', rfl⟩ := List.getLast?_eq_some_iff.mp hl
    exact List.mem_append_right l' (List.mem_singleton_self ℓ)
  rw [List.filter_append, List.filter_eq_nil_iff.mpr, List.filter_eq_self.mpr fun y hy => hs₁₂ ℓ hℓ y hy,
    List.nil_append]
  intro x hx
  rcases rel_getLast_of_sorted hs₁ hl hx with rfl | hxℓ
  · cases ascending <;> simp [h.irrefl]
  · cases ascending <;> simp only [if_true, Bool.false_eq_true, if_false] at hxℓ ⊢ <;> simp [h.asymm hxℓ]

theorem applyLimit_eq_take {α : Type} (limit : Option Nat) (l : List α) : ∃ m, applyLimit limit l = l.take m := by
  unfold applyLimit
  split
  · exact ⟨_, rfl⟩
  · exact ⟨l.length, (List.take_length l).symm⟩

theorem blockKeys_sublist {db : Database} (hk : db.BlockKeys) {rows : List Block} (hs : rows.Sublist db.blocks) :
    (rows.map Block.key).Nodup :=
  List.Nodup.of_map Prod.snd (by rw [List.map_map]; exact (hs.map _).nodup hk)

theorem cursorKey_eq_some {db : Database} {c : Option String} {k : Nat × String}
    (h : cursorKey Block.key db.blocks c = some k) : ∃ b ∈ db.blocks, b.key = k := by
  unfold cursorKey at h
  split at h
  · obtain ⟨b, hb, rfl⟩ := Option.map_eq_some'.mp h
    exact ⟨b, List.mem_of_find?_eq_some hb, rfl⟩
  · cases h

section TimeOrdered

variable {db : Database}

/-- On blocks whose ids follow creation time, the code's condition against a
stored cursor row is "after it in `(created_at, id)` order". -/
theorem cursorCondition_of_timeOrdered (ht : db.TimeOrdered) (above : Bool) {a b : Block}
    (ha : a ∈ db.blocks) (hb : b ∈ db.blocks) :
    cursorCondition above a.createdAt a.id b.key = if above then keyLt a.key b.key else keyLt b.key a.key := by
  refine Bool.eq_iff_iff.mpr ⟨keyLt_of_cursorCondition, fun h => ?_⟩
  rw [cursorCondition_iff]
  cases above <;> simp only [if_true, Bool.false_eq_true, if_false] at h ⊢
  · exact ht b hb a ha h
  · exact ht a ha b hb h

/-- **The code's window is the reference window** on blocks whose ids follow
creation time. -/
theorem inWindow_eq_reference_of_timeOrdered (ht : db.TimeOrdered) (ascending : Bool) (c₁ c₂ : Option String)
    {r : Block} (hr : r ∈ db.blocks) :
    inWindow ascending (cursorKey Block.key db.blocks c₁) (cursorKey Block.key db.blocks c₂) r.key =
      (((cursorKey Block.key db.blocks c₁).all fun k => if ascending then keyLt k r.key else keyLt r.key k) &&
        (cursorKey Block.key db.blocks c₂).all fun k => if ascending then keyLt r.key k else keyLt k r.key) := by
  unfold inWindow
  congr 1
  · rcases h : cursorKey Block.key db.blocks c₁ with _ | k
    · rfl
    · obtain ⟨a, ha, rfl⟩ := cursorKey_eq_some h
      exact cursorCondition_of_timeOrdered ht ascending ha hr
  · rcases h : cursorKey Block.key db.blocks c₂ with _ | k
    · rfl
    · obtain ⟨a, ha, rfl⟩ := cursorKey_eq_some h
      show cursorCondition (!ascending) a.createdAt a.id r.key = _
      rw [cursorCondition_of_timeOrdered ht _ ha hr]
      cases ascending <;> rfl

/-- Where ids follow creation time the id order of stored blocks is their key order. -/
theorem sortLe_key_of_idKey (ht : db.TimeOrdered) {ascending : Bool} {a b : Block} (ha : a ∈ db.blocks)
    (hb : b ∈ db.blocks) (h : sortLe idKeyLt ascending a.idKey b.idKey = true) :
    sortLe keyLt ascending a.key b.key = true := by
  have hid {x y : Block} (hx : x ∈ db.blocks) (hy : y ∈ db.blocks) (hxy : keyLt x.key y.key = true) :
      idKeyLt x.idKey y.idKey = true := by
    simp [idKeyLt, lexLt, Block.idKey, (ht x hx y hy hxy).2]
  cases ascending <;> simp only [sortLe, if_true, Bool.false_eq_true, if_false, Bool.not_eq_true'] at h ⊢
  · exact Bool.eq_false_iff.mpr fun e => by simp [hid ha hb e] at h
  · exact Bool.eq_false_iff.mpr fun e => by simp [hid hb ha e] at h

/-- So the `DISTINCT` order agrees with the plain one. -/
theorem sortBy_idKey_of_timeOrdered (hk : db.BlockKeys) (ht : db.TimeOrdered) (ascending : Bool)
    {rows : List Block} (hs : rows.Sublist db.blocks) :
    sortBy idKeyLt Block.idKey ascending rows = sortByKey Block.key ascending rows := by
  have hmem {x : Block} (hx : x ∈ sortBy idKeyLt Block.idKey ascending rows) : x ∈ db.blocks :=
    hs.subset ((sortBy_perm _ _ _).mem_iff.mp hx)
  refine eq_of_perm_of_sortedBy Block.key ascending keyLt_strictTotal
    ((sortBy_perm _ _ _).trans (sortByKey_perm _ _ _).symm)
    ((sortBy_sorted _ _ idKeyLt_strictTotal rows).imp_of_mem fun ha hb h => sortLe_key_of_idKey ht (hmem ha) (hmem hb) h)
    (sortBy_sorted _ _ keyLt_strictTotal rows) ?_
  exact ((sortBy_perm _ _ _).map _).nodup_iff.mpr (blockKeys_sublist hk hs)

theorem matching_sublist (q : BlockQuery) (actor : User) : (q.matching db actor).Sublist db.blocks :=
  (List.filter_sublist _).trans (List.filter_sublist _)

/-- Where ids follow creation time, every page is the first `limit` matching
blocks in `(created_at, id)` order that lie in the window, on either path. -/
theorem getBlocksAsync_timeOrdered (hk : db.BlockKeys) (ht : db.TimeOrdered) (actor : User) (q : BlockQuery) :
    getBlocksAsync db actor q = applyLimit q.limit ((sortByKey Block.key q.ascending (q.matching db actor)).filter
      fun b => inWindow q.ascending (cursorKey Block.key db.blocks q.after)
        (cursorKey Block.key db.blocks q.before) b.key) := by
  cases hd : q.needsDistinct
  · rw [getBlocksAsync_plain hk actor hd]
    simp only [BlockQuery.needsDistinct, Bool.or_eq_false_iff] at hd
    obtain ⟨⟨hj, hkeys⟩, hi⟩ := hd
    simp [BlockQuery.matching, countFilter_of_needsAgentCountJoin hj, identityRows_eq_one hkeys hi]
  · rw [getBlocksAsync_distinct hk actor hd,
      sortBy_idKey_of_timeOrdered hk ht _ ((List.filter_sublist _).trans (List.filter_sublist _))]
    rfl

theorem applyLimit_eq_nil {α : Type} {limit : Option Nat} {l : List α} (h : applyLimit limit l = []) : l = [] := by
  unfold applyLimit at h
  split at h
  · simpa using h
  · exact h

/-- Where ids follow creation time, the client collects, from a request on,
exactly the matching blocks in `(created_at, id)` order that lie in the
request's window. -/
theorem collectPages_timeOrdered (hk : db.BlockKeys) (hne : ∀ b ∈ db.blocks, b.id ≠ "") (ht : db.TimeOrdered)
    (actor : User) :
    ∀ (fuel : Nat) (q : BlockQuery) {rows : List Block}, collectPages db actor q fuel = some rows →
      rows = (sortByKey Block.key q.ascending (q.matching db actor)).filter fun b =>
        inWindow q.ascending (cursorKey Block.key db.blocks q.after) (cursorKey Block.key db.blocks q.before) b.key
  | 0, _, _, h => nomatch h
  | fuel + 1, q, rows, h => by
      have hpage := getBlocksAsync_timeOrdered hk ht actor q
      rw [collectPages] at h
      split at h
      · rename_i hl
        cases h
        exact (applyLimit_eq_nil (hpage ▸ List.getLast?_eq_none_iff.mp hl)).symm
      · rename_i ℓ hl
        obtain ⟨rest, hr, rfl⟩ := Option.map_eq_some'.mp h
        obtain ⟨-, hℓm, hw, hc⟩ := getLast_cursor hk hne actor hl
        have hrest : rest = (sortByKey Block.key q.ascending (q.matching db actor)).filter fun b =>
            inWindow q.ascending (cursorKey Block.key db.blocks (some ℓ.id))
              (cursorKey Block.key db.blocks q.before) b.key :=
          collectPages_timeOrdered hk hne ht actor fuel _ hr
        set R := (sortByKey Block.key q.ascending (q.matching db actor)).filter fun b =>
          inWindow q.ascending (cursorKey Block.key db.blocks q.after)
            (cursorKey Block.key db.blocks q.before) b.key with hR
        obtain ⟨m, hm⟩ := applyLimit_eq_take q.limit R
        rw [hpage, hm] at hl ⊢
        -- the next request's window is this one's, beyond `ℓ`
        have hstep (b : Block) (hb : b ∈ db.blocks) :
            inWindow q.ascending (some ℓ.key) (cursorKey Block.key db.blocks q.before) b.key =
              ((if q.ascending then keyLt ℓ.key b.key else keyLt b.key ℓ.key) &&
                inWindow q.ascending (cursorKey Block.key db.blocks q.after)
                  (cursorKey Block.key db.blocks q.before) b.key) := by
          have hcc : cursorCondition q.ascending ℓ.key.1 ℓ.key.2 b.key = _ :=
            cursorCondition_of_timeOrdered ht q.ascending hℓm hb
          cases ha : (if q.ascending then keyLt ℓ.key b.key else keyLt b.key ℓ.key)
          · simp [inWindow, hcc, ha]
          · rw [Bool.true_and]
            refine Bool.eq_iff_iff.mpr ⟨inWindow_of_beyond hw, fun h' => ?_⟩
            simp only [inWindow, Bool.and_eq_true, Option.all_some] at h' ⊢
            exact ⟨hcc.trans ha, h'.2⟩
        have hstrict : (R.take m ++ R.drop m).Pairwise fun a b =>
            (if q.ascending then keyLt a.key b.key else keyLt b.key a.key) = true := by
          rw [List.take_append_drop]
          exact (sortBy_strict keyLt_strictTotal Block.key q.ascending
            (blockKeys_sublist hk (matching_sublist q actor))).filter _
        have hdrop : R.filter (fun b => if q.ascending then keyLt ℓ.key b.key else keyLt b.key ℓ.key) =
            R.drop m := by
          conv_lhs => rw [← List.take_append_drop m R]
          exact filter_after_eq_drop keyLt_strictTotal hstrict hl
        rw [hrest, hc, List.filter_congr fun b hb =>
            hstep b ((matching_sublist q actor).subset ((sortByKey_perm _ _ _).mem_iff.mp hb)),
          ← List.filter_filter, ← hR, hdrop, List.take_append_drop]

/-- **Paging is complete when ids follow creation time.** On blocks with
distinct, non-empty ids whose id order agrees with their creation order, a
client that follows `after` cursors until a page comes back empty collects
exactly the reference sequence: the matching blocks in `(created_at, id)`
order (reversed when descending) strictly between the first request's cursor
rows, whatever the limit and on either path. -/
theorem paging_complete_of_timeOrdered {db : Database} (hk : db.BlockKeys) (hne : ∀ b ∈ db.blocks, b.id ≠ "")
    (ht : db.TimeOrdered) (actor : User) (q : BlockQuery) :
    collectPages db actor q (db.blocks.length + 1) = some (referencePage Block.key q.ascending
      (cursorKey Block.key db.blocks q.after) (cursorKey Block.key db.blocks q.before) none
      (q.matching db actor)) := by
  obtain ⟨rows, h⟩ := collectPages_ends hk hne actor _ q (Nat.lt_succ_of_le (List.length_filter_le _ _))
  rw [h, collectPages_timeOrdered hk hne ht actor _ q h]
  simp only [referencePage, applyLimit]
  exact congrArg some (List.filter_congr fun b hb => inWindow_eq_reference_of_timeOrdered ht _ _ _
    ((matching_sublist q actor).subset ((sortByKey_perm _ _ _).mem_iff.mp hb)))

/-- Two blocks, the later one with the larger id. -/
def timeOrderedDatabase : Database :=
  { sampleDatabase with blocks := [listedBlock "b1" 0, listedBlock "b2" 1] }

theorem paging_complete_of_timeOrdered_sample :
    timeOrderedDatabase.BlockKeys ∧ (∀ b ∈ timeOrderedDatabase.blocks, b.id ≠ "") ∧
      timeOrderedDatabase.TimeOrdered ∧
      collectPages timeOrderedDatabase sampleUser { limit := some 1 } (timeOrderedDatabase.blocks.length + 1) =
        some (referencePage Block.key true (cursorKey Block.key timeOrderedDatabase.blocks none)
          (cursorKey Block.key timeOrderedDatabase.blocks none) none
          (BlockQuery.matching { limit := some 1 } timeOrderedDatabase sampleUser)) :=
  ⟨by decide, by decide, by decide,
    paging_complete_of_timeOrdered (by decide) (by decide) (by decide) sampleUser { limit := some 1 }⟩

/-- One block a page: the client sees both. -/
example : collectPages timeOrderedDatabase sampleUser { limit := some 1 } 3 =
    some [listedBlock "b1" 0, listedBlock "b2" 1] := by
  decide

end TimeOrdered

end Letta
