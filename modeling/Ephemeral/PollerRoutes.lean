import Ephemeral.DpdkPoller

/-!
# The routing table refines the registrations

Every slot of the table, read as a slot of a linear-probing table with the pair of hash and
5-tuple as key (`RouteSlot.view`), and the loops of the poller, read as walks over such slots.
`Routed` is what holds of a poller after any sequence of calls: the table is sound, and it holds
exactly the registered entries with their indices.

A lookup then finds exactly what is registered (`route_table_refines`).
-/

namespace Eph.Net.Dpdk

open ByteOrder Core Eph.Dpdk LinearProbing List Function

variable {i : Nat}

/-- The key of a route. -/
abbrev RouteKey := UInt32 × FiveTuple

/-- The home slot of a key. -/
def RouteKey.home (k : RouteKey) : Fin kRouteTableSize := homeSlot k.1

/-- A route slot without what it keeps of an earlier life. -/
def RouteSlot.view (s : RouteSlot) : Slot RouteKey UInt8 :=
  match s.state with
  | .kEmpty => .empty
  | .kOccupied => .occupied (s.connHash, s.tuple) s.entryIdx
  | .kTombstone => .tombstone

/-- The table without that. -/
def RouteTable.view (table : RouteTable) : Fin kRouteTableSize → Slot RouteKey UInt8 :=
  fun i => (table i).view

section Loops

variable {table : RouteTable} {hash : UInt32} {tuple : FiveTuple} {steps : Nat}
  {idx : Fin kRouteTableSize}

theorem view_empty (h : (table idx).state = .kEmpty) : table.view idx = .empty := by
  simp only [RouteTable.view, RouteSlot.view, h]

theorem view_occupied (h : (table idx).state = .kOccupied) :
    table.view idx = .occupied ((table idx).connHash, (table idx).tuple) (table idx).entryIdx := by
  simp only [RouteTable.view, RouteSlot.view, h]

theorem view_tombstone (h : (table idx).state = .kTombstone) : table.view idx = .tombstone := by
  simp only [RouteTable.view, RouteSlot.view, h]

theorem view_empty_iff : table.view idx = .empty ↔ (table idx).state = .kEmpty := by
  cases h : (table idx).state with
  | kEmpty => simp [view_empty h]
  | kOccupied => simp [view_occupied h]
  | kTombstone => simp [view_tombstone h]

theorem view_update (table : RouteTable) (idx : Fin kRouteTableSize) (s : RouteSlot) :
    RouteTable.view (update table idx s) = update table.view idx s.view := by
  funext j
  by_cases hj : j = idx
  · rw [hj, RouteTable.view, update_self, update_self]
  · rw [RouteTable.view, update_of_ne hj, update_of_ne hj]
    rfl

/-- The slot holds the key that is looked for. -/
theorem key_eq_iff :
    ((table idx).connHash == hash && (table idx).tuple == tuple) = true ↔
      ((table idx).connHash, (table idx).tuple) = (hash, tuple) := by
  rw [Bool.and_eq_true, beq_iff_eq, beq_iff_eq, Prod.mk.injEq]

/-- The lookup loop is a walk for the key. -/
theorem findRouteLoop_eq (collision : Bool) :
    (findRouteLoop table hash tuple steps idx collision).1 =
      match walk table.view (verdict (hash, tuple)) steps idx with
      | some (_, b) => b
      | none => .exhausted := by
  induction steps generalizing idx collision with
  | zero => rfl
  | succ steps ih =>
    rw [findRouteLoop, walk]
    cases hstate : (table idx).state with
    | kEmpty => simp [view_empty hstate, verdict]
    | kTombstone =>
      rw [view_tombstone hstate]
      exact ih collision
    | kOccupied =>
      rw [view_occupied hstate, verdict]
      by_cases hkey : ((table idx).connHash, (table idx).tuple) = (hash, tuple)
      · simp only [hkey, key_eq_iff.mpr hkey, if_true]
      · simp only [hkey, mt key_eq_iff.mp hkey, if_false]
        exact ih _

/-- `find_route_slot_` in terms of the walk. -/
theorem findRouteSlot_eq (table : RouteTable) (hash : UInt32) (tuple : FiveTuple) :
    (findRouteSlot table hash tuple).1 =
      match walk table.view (verdict (hash, tuple)) kRouteTableSize (homeSlot hash) with
      | some (_, .found v) => v
      | _ => kInvalidSlot := by
  have hloop := @findRouteLoop_eq table hash tuple kRouteTableSize (homeSlot hash) false
  rw [findRouteSlot]
  obtain ⟨⟨b, collision⟩, hb⟩ : ∃ r, findRouteLoop table hash tuple kRouteTableSize
    (homeSlot hash) false = r := ⟨_, rfl⟩
  rw [hb] at hloop ⊢
  subst hloop
  cases walk table.view (verdict (hash, tuple)) kRouteTableSize (homeSlot hash) with
  | none => rfl
  | some r =>
    obtain ⟨j, b⟩ := r
    cases b <;> rfl

/-- The insertion loop is a walk for a free slot. -/
theorem insertRouteLoop_eq :
    insertRouteLoop table steps idx = (walk table.view vacancy steps idx).map Prod.fst := by
  induction steps generalizing idx with
  | zero => rfl
  | succ steps ih =>
    rw [insertRouteLoop, walk]
    cases hstate : (table idx).state with
    | kEmpty => simp [view_empty hstate, vacancy]
    | kTombstone => simp [view_tombstone hstate, vacancy]
    | kOccupied =>
      rw [view_occupied hstate]
      exact ih

/-- The removal loop walks to the key and leaves a tombstone. -/
theorem tombstoneRouteLoop_view :
    (tombstoneRouteLoop table hash tuple steps idx).view =
      match walk table.view (verdict (hash, tuple)) steps idx with
      | some (j, .found _) => update table.view j .tombstone
      | _ => table.view := by
  induction steps generalizing idx with
  | zero => rfl
  | succ steps ih =>
    rw [tombstoneRouteLoop, walk]
    cases hstate : (table idx).state with
    | kEmpty => simp [view_empty hstate, verdict]
    | kTombstone =>
      rw [view_tombstone hstate]
      exact ih
    | kOccupied =>
      rw [view_occupied hstate, verdict]
      by_cases hkey : ((table idx).connHash, (table idx).tuple) = (hash, tuple)
      · simp only [hkey, key_eq_iff.mpr hkey, if_true, view_update]
        rfl
      · simp only [hkey, mt key_eq_iff.mp hkey, if_false]
        exact ih

/-- How an index moves when the entry at `removedIdx` leaves the array. -/
def shiftedIndex (removedIdx v : UInt8) : UInt8 :=
  if v > removedIdx && v != kInvalidSlot then v - 1 else v

theorem shiftDown_view (removedIdx : UInt8) :
    (shiftDownRouteIndicesAbove table removedIdx).view =
      fun i => (table.view i).mapValue (shiftedIndex removedIdx) := by
  funext i
  rw [RouteTable.view, shiftDownRouteIndicesAbove]
  cases hstate : (table i).state with
  | kEmpty => simp [view_empty hstate, Slot.mapValue, RouteSlot.view, hstate]
  | kTombstone => simp [view_tombstone hstate, Slot.mapValue, RouteSlot.view, hstate]
  | kOccupied =>
    rw [view_occupied hstate, Slot.mapValue, shiftedIndex]
    simp only [beq_self_eq_true, Bool.true_and]
    split
    · rfl
    · simp only [RouteSlot.view, hstate]

end Loops

/-! ## What the table says of the entries -/

section Routed

variable {ω : Type} {hash : FiveTuple → UInt32}

/-- An entry's key. -/
def PollableEntry.key (e : PollableEntry ω) : RouteKey := (e.connHash, e.tuple)

/-- The table is sound and holds exactly the registered entries, with their places. -/
structure Routed (hash : FiveTuple → UInt32) (p : DpdkPoller ω) : Prop where
  room : p.entries.length ≤ p.maxConnections
  limit : p.maxConnections ≤ kMaxConnHard
  hashed : ∀ e ∈ p.entries, e.connHash = hash e.tuple
  sound : Sound RouteKey.home p.routeTable.view
  routes : ∀ k v, Holds p.routeTable.view k v ↔
    ∃ i e, p.entries[i]? = some e ∧ e.key = k ∧ UInt8.ofNat i = v

/-- A new poller. -/
theorem routed_create {maxConnections : Nat} {p : DpdkPoller ω}
    (h : DpdkPoller.create ω maxConnections = .ok p) : Routed hash p := by
  rw [DpdkPoller.create] at h
  split at h
  · cases h
  rename_i hrange
  cases h
  simp only [Bool.or_eq_true, decide_eq_true_eq, not_or, Nat.not_lt] at hrange
  refine ⟨Nat.zero_le _, hrange.2, nofun, sound_empty _, ?_⟩
  intro k v
  exact ⟨nofun, nofun⟩

variable {p : DpdkPoller ω}

theorem Routed.lt_limit (h : Routed hash p) {e : PollableEntry ω} (hi : p.entries[i]? = some e) :
    i < kMaxConnHard := by
  obtain ⟨hlt, -⟩ := List.getElem?_eq_some_iff.mp hi
  have hroom := h.room
  have hlimit := h.limit
  omega

/-- An index below the limit survives its byte. -/
theorem toNat_index (h : i < kMaxConnHard) : (UInt8.ofNat i).toNat = i := by
  rw [UInt8.toNat_ofNat']
  exact Nat.mod_eq_of_lt (Nat.lt_trans h (by decide))

theorem index_ne_invalid (h : i < kMaxConnHard) : UInt8.ofNat i ≠ kInvalidSlot := by
  intro heq
  have hnat := congrArg UInt8.toNat heq
  rw [toNat_index h] at hnat
  rw [hnat] at h
  exact absurd h (by decide)

section

variable (h : Routed hash p)

include h

/-- **A lookup in the table finds exactly the registered entries.** -/
theorem Routed.findRouteSlot_iff (t : FiveTuple) (i : Nat) :
    ((findRouteSlot p.routeTable (hash t) t).1 ≠ kInvalidSlot ∧
      (findRouteSlot p.routeTable (hash t) t).1.toNat = i) ↔
      ∃ e, p.entries[i]? = some e ∧ e.tuple = t := by
  have hhome : homeSlot (hash t) = RouteKey.home (hash t, t) := rfl
  rw [findRouteSlot_eq, hhome]
  constructor
  · rintro ⟨hvalid, rfl⟩
    split at hvalid
    · rename_i j v hwalk
      obtain ⟨m, e, he, hkey, rfl⟩ := (h.routes _ v).mp ⟨j, h.sound.walk_found_iff.mp hwalk⟩
      refine ⟨e, ?_, congrArg Prod.snd hkey⟩
      rwa [toNat_index (h.lt_limit he)]
    · exact absurd rfl hvalid
  · rintro ⟨e, he, rfl⟩
    have hlt := h.lt_limit he
    obtain ⟨j, hj⟩ := (h.routes e.key (UInt8.ofNat i)).mpr ⟨i, e, he, rfl, rfl⟩
    have hkey : e.key = (hash e.tuple, e.tuple) := by
      rw [PollableEntry.key, h.hashed e (mem_of_getElem? he)]
    rw [hkey] at hj
    rw [h.sound.walk_found_iff.mpr hj]
    exact ⟨index_ne_invalid hlt, toNat_index hlt⟩

/-- A tuple that the duplicate check lets pass is not in the table. -/
theorem Routed.absent {t : FiveTuple}
    (hmiss : (findRouteSlot p.routeTable (hash t) t).1 = kInvalidSlot) (v : UInt8) :
    ¬ Holds p.routeTable.view (hash t, t) v := by
  intro hholds
  obtain ⟨i, e, he, hkey, -⟩ := (h.routes _ v).mp hholds
  exact ((h.findRouteSlot_iff t i).mpr ⟨e, he, congrArg Prod.snd hkey⟩).1 hmiss

/-- **There is room for a route** while fewer slots are registered than the table has. -/
theorem Routed.exists_free (k : RouteKey) :
    ∃ i, walk p.routeTable.view vacancy kRouteTableSize k.home = some (i, ()) := by
  cases hwalk : walk p.routeTable.view vacancy kRouteTableSize k.home with
  | some r => exact ⟨r.1, rfl⟩
  | none =>
    -- a full table would hold a different entry in each of its slots
    obtain ⟨f, hholds, hinj⟩ := h.sound.full (walk_all_none_iff.mp hwalk)
    have hentry : ∀ j, ∃ i : Fin p.entries.length, (p.entries.get i).key = (f j).1 := by
      intro j
      obtain ⟨i, e, he, hkey, -⟩ := (h.routes _ _).mp (hholds j)
      obtain ⟨hlt, rfl⟩ := List.getElem?_eq_some_iff.mp he
      exact ⟨⟨i, hlt⟩, hkey⟩
    choose g hg using hentry
    have hg_inj : Function.Injective g := by
      intro a b hab
      refine hinj ?_
      change (f a).1 = (f b).1
      rw [← hg a, ← hg b, hab]
    have hcard := Fintype.card_le_of_injective g hg_inj
    rw [Fintype.card_fin, Fintype.card_fin] at hcard
    have hroom := h.room
    have hlimit := h.limit
    have hsize : kRouteTableSize = 128 := rfl
    have hhard : kMaxConnHard = 64 := rfl
    omega

/-- `insert_route_` takes the free slot that the walk from the home finds. -/
theorem Routed.insertRoute_eq (hashValue : UInt32) (t : FiveTuple) (idx : Nat) :
    ∃ i table, walk p.routeTable.view vacancy kRouteTableSize (homeSlot hashValue) = some (i, ()) ∧
      insertRoute p.routeTable hashValue t idx = some table ∧
      table.view = update p.routeTable.view i
        (.occupied (hashValue, t) (UInt8.ofNat idx)) := by
  obtain ⟨i, hi⟩ := h.exists_free (hashValue, t)
  have hloop : insertRouteLoop p.routeTable kRouteTableSize (homeSlot hashValue) = some i := by
    rw [insertRouteLoop_eq]
    exact congrArg (Option.map Prod.fst) hi
  exact ⟨i, _, hi, by rw [insertRoute, hloop]; rfl, view_update _ _ _⟩

/-- **A registration**: an entry at the end and a route to it. -/
theorem Routed.insert (hroom : p.entries.length < p.maxConnections) {obj : ω} {t : FiveTuple}
    (hmiss : (findRouteSlot p.routeTable (hash t) t).1 = kInvalidSlot) {table : RouteTable}
    (htable : insertRoute p.routeTable (hash t) t p.entries.length = some table) :
    Routed hash { p with
      entries := p.entries ++ [⟨obj, hash t, t⟩]
      routeTable := table } := by
  obtain ⟨i, table', hwalk, hinsert, hview⟩ := h.insertRoute_eq (hash t) t p.entries.length
  obtain rfl : table' = table := Option.some.inj (hinsert.symm.trans htable)
  obtain ⟨-, -, -, hvacant, -⟩ := walk_some_iff.mp hwalk
  refine ⟨?_, h.limit, ?_, ?_, ?_⟩
  · rw [length_append, length_singleton]
    exact hroom
  · exact forall_mem_append.mpr ⟨h.hashed, forall_mem_singleton.mpr rfl⟩
  · rw [hview]
    exact h.sound.insert (h.absent hmiss) hwalk _
  · intro k v
    rw [hview, holds_insert_iff hvacant, h.routes]
    constructor
    · rintro (⟨rfl, rfl⟩ | ⟨j, e, he, hkey, hv⟩)
      · exact ⟨p.entries.length, _, getElem?_concat_length .., rfl, rfl⟩
      · obtain ⟨hlt, -⟩ := List.getElem?_eq_some_iff.mp he
        exact ⟨j, e, by rwa [getElem?_append_left hlt], hkey, hv⟩
    rintro ⟨j, e, he, hkey, hv⟩
    rcases Nat.lt_or_ge j p.entries.length with hlt | hge
    · rw [getElem?_append_left hlt] at he
      exact .inr ⟨j, e, he, hkey, hv⟩
    obtain ⟨hle, -⟩ := List.getElem?_eq_some_iff.mp he
    obtain rfl : j = p.entries.length := by
      rw [length_append, length_singleton] at hle
      omega
    rw [getElem?_concat_length] at he
    cases he
    exact .inl ⟨hkey.symm, hv.symm⟩

end

/-- How the byte of an index moves when entry `i` leaves the array. -/
theorem shiftedIndex_ofNat {i j : Nat} (hi : i < kMaxConnHard) (hj : j < kMaxConnHard)
    (hne : j ≠ i) :
    shiftedIndex (UInt8.ofNat i) (UInt8.ofNat j) = UInt8.ofNat (if j < i then j else j - 1) := by
  have hgt : UInt8.ofNat j > UInt8.ofNat i ↔ i < j := by
    rw [gt_iff_lt, UInt8.lt_iff_toNat_lt, toNat_index hi, toNat_index hj]
  have hvalid : (UInt8.ofNat j != kInvalidSlot) = true := by
    simpa using index_ne_invalid hj
  rw [shiftedIndex, hvalid, Bool.and_true]
  by_cases hlt : j < i
  · rw [if_pos hlt, if_neg]
    rw [decide_eq_true_eq, hgt]
    omega
  rw [if_neg hlt, if_pos]
  · apply UInt8.toNat_inj.mp
    rw [UInt8.toNat_sub_of_le _ _ (by
      rw [UInt8.le_iff_toNat_le, toNat_index hj]
      change 1 ≤ j
      omega), toNat_index hj, toNat_index (by omega)]
    rfl
  · rw [decide_eq_true_eq, hgt]
    omega

/-- No two entries have the same key. -/
theorem Routed.key_inj (h : Routed hash p) {i j : Nat} {e e' : PollableEntry ω}
    (hi : p.entries[i]? = some e) (hj : p.entries[j]? = some e') (hkey : e.key = e'.key) :
    i = j := by
  obtain ⟨a, ha⟩ := (h.routes e.key (UInt8.ofNat i)).mpr ⟨i, e, hi, rfl, rfl⟩
  obtain ⟨b, hb⟩ := (h.routes e.key (UInt8.ofNat j)).mpr ⟨j, e', hj, hkey.symm, rfl⟩
  obtain rfl := h.sound.unique _ _ _ a b ha hb
  rw [ha] at hb
  have hindex := congrArg UInt8.toNat (Slot.occupied.inj hb).2
  rwa [toNat_index (h.lt_limit hi), toNat_index (h.lt_limit hj)] at hindex

/-- `tombstone_route_` of a registered entry. -/
theorem Routed.tombstoneRoute_view (h : Routed hash p) {e : PollableEntry ω}
    (hi : p.entries[i]? = some e) :
    ∃ slot, p.routeTable.view slot = .occupied e.key (UInt8.ofNat i) ∧
      (tombstoneRoute p.routeTable e.connHash e.tuple).view =
        update p.routeTable.view slot .tombstone := by
  obtain ⟨slot, hslot⟩ := (h.routes e.key (UInt8.ofNat i)).mpr ⟨i, e, hi, rfl, rfl⟩
  have hwalk := h.sound.walk_found_iff.mpr hslot
  have hhome : homeSlot e.connHash = RouteKey.home e.key := rfl
  have hkey : (e.connHash, e.tuple) = e.key := rfl
  refine ⟨slot, hslot, ?_⟩
  rw [tombstoneRoute, tombstoneRouteLoop_view, hhome, hkey, hwalk]

/-- Where entry `j` stands after entry `i` has left. -/
theorem getElem?_eraseIdx_moved {α : Type} {l : List α} {i j : Nat} (hne : j ≠ i) :
    (l.eraseIdx i)[if j < i then j else j - 1]? = l[j]? := by
  rw [getElem?_eraseIdx]
  by_cases hlt : j < i
  · rw [if_pos hlt, if_pos hlt]
  · rw [if_neg hlt, if_neg (by omega), Nat.sub_add_cancel (by omega)]

/-- **A removal**: the route becomes a tombstone, the entries behind move up, and the table
follows them. -/
theorem Routed.remove (h : Routed hash p) {e : PollableEntry ω} (hi : p.entries[i]? = some e) :
    Routed hash { p with
      entries := p.entries.eraseIdx i
      routeTable :=
        if i < (p.entries.eraseIdx i).length then
          shiftDownRouteIndicesAbove (tombstoneRoute p.routeTable e.connHash e.tuple)
            (UInt8.ofNat i)
        else tombstoneRoute p.routeTable e.connHash e.tuple } := by
  obtain ⟨slot, hslot, herased⟩ := h.tombstoneRoute_view hi
  obtain ⟨hlt, -⟩ := List.getElem?_eq_some_iff.mp hi
  have hlength : (p.entries.eraseIdx i).length = p.entries.length - 1 := length_eraseIdx_of_lt hlt
  have hroom := h.room
  have hsound := h.sound.erase slot
  -- What the tombstoned table holds, with the indices as they were.
  have hold : ∀ k v, Holds (update p.routeTable.view slot .tombstone) k v ↔
      ∃ j e', j ≠ i ∧ p.entries[j]? = some e' ∧ e'.key = k ∧ UInt8.ofNat j = v := by
    intro k v
    rw [h.sound.holds_erase_iff hslot, h.routes]
    constructor
    · rintro ⟨hne, j, e', hj, rfl, hv⟩
      refine ⟨j, e', ?_, hj, rfl, hv⟩
      rintro rfl
      exact hne (congrArg PollableEntry.key (Option.some.inj (hj.symm.trans hi)))
    · rintro ⟨j, e', hne, hj, rfl, hv⟩
      exact ⟨fun hkey => hne (h.key_inj hj hi hkey), j, e', hj, rfl, hv⟩
  refine ⟨by dsimp only; omega, h.limit, ?_, ?_, ?_⟩
  · intro e' he'
    exact h.hashed e' (mem_of_mem_eraseIdx he')
  · split
    · rw [shiftDown_view, herased]
      exact hsound.mapValue _
    · rw [herased]
      exact hsound
  · intro k v
    -- Both branches: what was held, with the indices moved up.
    have hmoved : Holds (if i < (p.entries.eraseIdx i).length then
          shiftDownRouteIndicesAbove (tombstoneRoute p.routeTable e.connHash e.tuple)
            (UInt8.ofNat i)
        else tombstoneRoute p.routeTable e.connHash e.tuple).view k v ↔
        ∃ j e', j ≠ i ∧ p.entries[j]? = some e' ∧ e'.key = k ∧
          UInt8.ofNat (if j < i then j else j - 1) = v := by
      split
      · rw [shiftDown_view, herased, holds_mapValue_iff]
        constructor
        · rintro ⟨w, hw, rfl⟩
          obtain ⟨j, e', hne, hj, hkey, rfl⟩ := (hold k w).mp hw
          exact ⟨j, e', hne, hj, hkey,
            (shiftedIndex_ofNat (h.lt_limit hi) (h.lt_limit hj) hne).symm⟩
        · rintro ⟨j, e', hne, hj, hkey, rfl⟩
          exact ⟨_, (hold k _).mpr ⟨j, e', hne, hj, hkey, rfl⟩,
            shiftedIndex_ofNat (h.lt_limit hi) (h.lt_limit hj) hne⟩
      · have hbefore : ∀ {j : Nat} {e' : PollableEntry ω}, j ≠ i → p.entries[j]? = some e' →
            j < i := by
          intro j e' hne hj
          obtain ⟨hjlt, -⟩ := List.getElem?_eq_some_iff.mp hj
          omega
        rw [herased, hold]
        constructor
        · rintro ⟨j, e', hne, hj, hkey, rfl⟩
          exact ⟨j, e', hne, hj, hkey, by rw [if_pos (hbefore hne hj)]⟩
        · rintro ⟨j, e', hne, hj, hkey, rfl⟩
          exact ⟨j, e', hne, hj, hkey, by rw [if_pos (hbefore hne hj)]⟩
    refine hmoved.trans ⟨?_, ?_⟩
    · rintro ⟨j, e', hne, hj, hkey, hv⟩
      exact ⟨_, e', by rw [getElem?_eraseIdx_moved hne]; exact hj, hkey, hv⟩
    rintro ⟨j, e', hj, hkey, hv⟩
    rw [getElem?_eraseIdx] at hj
    split at hj
    · rename_i hji
      exact ⟨j, e', by omega, hj, hkey, by rwa [if_pos hji]⟩
    · exact ⟨j + 1, e', by omega, hj, hkey, by rwa [if_neg (by omega), Nat.add_sub_cancel]⟩

end Routed

section Runs

variable {ω : Type} [DecidableEq ω] {hash : FiveTuple → UInt32} {p : DpdkPoller ω}

/-- The poller has room for the object, and neither it nor its tuple is registered. -/
def DpdkPoller.Accepts (p : DpdkPoller ω) (obj : ω) (t : FiveTuple) : Prop :=
  p.entries.length < p.maxConnections ∧ (∀ e ∈ p.entries, e.obj ≠ obj) ∧
    ∀ e ∈ p.entries, e.tuple ≠ t

omit [DecidableEq ω] in
/-- The duplicate check finds exactly the registered tuples. -/
theorem Routed.miss_iff (h : Routed hash p) (t : FiveTuple) :
    (findRouteSlot p.routeTable (hash t) t).1 = kInvalidSlot ↔ ∀ e ∈ p.entries, e.tuple ≠ t := by
  constructor
  · intro hmiss e he ht
    obtain ⟨i, hi⟩ := getElem?_of_mem he
    exact ((h.findRouteSlot_iff t i).mpr ⟨e, hi, ht⟩).1 hmiss
  · intro hall
    by_contra hfound
    obtain ⟨e, he, ht⟩ := (h.findRouteSlot_iff t _).mp ⟨hfound, rfl⟩
    exact hall e (mem_of_getElem? he) ht

/-- What `add` does: it registers the object, or leaves the poller alone. -/
theorem Routed.add_cases (h : Routed hash p) (obj : Option ω) (t : FiveTuple) :
    (∃ o, obj = some o ∧ p.Accepts o t ∧ ∃ table,
      insertRoute p.routeTable (hash t) t p.entries.length = some table ∧
      (p.add hash obj t).1 = { p with
        entries := p.entries ++ [⟨o, hash t, t⟩]
        routeTable := table }) ∨
    ((p.add hash obj t).1 = p ∧ ∀ o, obj = some o → ¬ p.Accepts o t) := by
  cases obj with
  | none => exact .inr ⟨rfl, nofun⟩
  | some o =>
    rw [DpdkPoller.add]
    split
    · refine .inr ⟨rfl, fun o' _ haccepts => ?_⟩
      exact absurd haccepts.1 (by omega)
    split
    · rename_i hregistered
      refine .inr ⟨rfl, fun o' ho' haccepts => ?_⟩
      cases ho'
      obtain ⟨e, he, heq⟩ := any_eq_true.mp hregistered
      exact haccepts.2.1 e he (eq_of_beq heq)
    rename_i hnew
    split
    · rename_i hfound
      refine .inr ⟨rfl, fun o' _ haccepts => ?_⟩
      exact absurd ((h.miss_iff t).mpr haccepts.2.2) (by simpa using hfound)
    rename_i hmiss
    obtain ⟨-, table, -, htable, -⟩ := h.insertRoute_eq (hash t) t p.entries.length
    refine .inl ⟨o, rfl, ⟨by omega, ?_, ?_⟩, table, htable, ?_⟩
    · intro e he heq
      exact hnew (any_eq_true.mpr ⟨e, he, by simpa using heq⟩)
    · exact (h.miss_iff t).mp (by simpa using hmiss)
    · dsimp only
      rw [htable]
      rfl

/-- What `remove` does: it removes a registered entry, or leaves the poller alone. -/
theorem DpdkPoller.remove_cases (p : DpdkPoller ω) (obj : Option ω) :
    (∃ i e, p.entries[i]? = some e ∧ (p.remove obj).1 = { p with
      entries := p.entries.eraseIdx i
      routeTable :=
        if i < (p.entries.eraseIdx i).length then
          shiftDownRouteIndicesAbove (tombstoneRoute p.routeTable e.connHash e.tuple)
            (UInt8.ofNat i)
        else tombstoneRoute p.routeTable e.connHash e.tuple }) ∨
    (p.remove obj).1 = p := by
  cases obj with
  | none => exact .inr rfl
  | some o =>
    rw [DpdkPoller.remove]
    split
    · exact .inr rfl
    · rename_i e hi
      exact .inl ⟨_, e, hi, rfl⟩

/-- **Every call keeps the table in step with the entries.** -/
theorem Routed.step (h : Routed hash p) (call : PollerCall ω) : Routed hash (p.step hash call) := by
  cases call with
  | add obj t =>
    rw [DpdkPoller.step]
    obtain ⟨o, rfl, haccepts, table, htable, hadd⟩ | ⟨hadd, -⟩ := h.add_cases obj t
    · rw [hadd]
      exact h.insert haccepts.1 ((h.miss_iff t).mpr haccepts.2.2) htable
    · rwa [hadd]
  | remove obj =>
    rw [DpdkPoller.step]
    obtain ⟨i, e, hi, hremove⟩ | hremove := p.remove_cases obj
    · rw [hremove]
      exact h.remove hi
    · rwa [hremove]

theorem Routed.run (h : Routed hash p) (calls : List (PollerCall ω)) :
    Routed hash (p.run hash calls) := by
  induction calls generalizing p with
  | nil => exact h
  | cons call calls ih => exact ih (h.step call)

/-- **The routing table refines the registrations.**  After every sequence of calls on a new
poller, whatever the hash, a lookup of a 5-tuple returns an index exactly if the entry there has
that tuple; a packet is routed to the entry that has its tuple, seen from the local end; and while
fewer than 64 entries are registered there is a slot for another route. -/
theorem route_table_refines (hash : FiveTuple → UInt32) {maxConnections : Nat} {p₀ : DpdkPoller ω}
    (hcreate : DpdkPoller.create ω maxConnections = .ok p₀) (calls : List (PollerCall ω)) :
    (∀ t i, ((findRouteSlot (p₀.run hash calls).routeTable (hash t) t).1 ≠ kInvalidSlot ∧
        (findRouteSlot (p₀.run hash calls).routeTable (hash t) t).1.toNat = i) ↔
      ∃ e, (p₀.run hash calls).entries[i]? = some e ∧ e.tuple = t) ∧
    (∀ m i, ((p₀.run hash calls).lookupBy5tuple hash m).2 = some i ↔
      ∃ t e, packetTuple m = some t ∧ (p₀.run hash calls).entries[i]? = some e ∧ e.tuple = t.swap) ∧
    ((p₀.run hash calls).entries.length < kMaxConnHard → ∀ t idx,
      (insertRoute (p₀.run hash calls).routeTable (hash t) t idx).isSome = true) := by
  have h : Routed hash (p₀.run hash calls) := (routed_create hcreate).run calls
  generalize p₀.run hash calls = p at h
  refine ⟨h.findRouteSlot_iff, ?_, ?_⟩
  · intro m i
    rw [DpdkPoller.lookupBy5tuple]
    cases packetTuple m with
    | none => exact ⟨nofun, nofun⟩
    | some packet =>
      have hfind := h.findRouteSlot_iff packet.swap i
      dsimp only
      split
      · rename_i hvalid
        have hvalid' := by simpa using hvalid
        constructor
        · intro hi
          obtain ⟨e, he, ht⟩ := hfind.mp ⟨hvalid', Option.some.inj hi⟩
          exact ⟨packet, e, rfl, he, ht⟩
        · rintro ⟨t, e, ht, he, htuple⟩
          cases ht
          exact congrArg some (hfind.mpr ⟨e, he, htuple⟩).2
      · rename_i hinvalid
        have hmiss := by simpa using hinvalid
        constructor
        · intro hi
          split at hi <;> cases hi
        · rintro ⟨t, e, ht, he, htuple⟩
          cases ht
          exact absurd hmiss (hfind.mpr ⟨e, he, htuple⟩).1
  · intro _ t idx
    obtain ⟨-, table, -, htable, -⟩ := h.insertRoute_eq (hash t) t idx
    rw [htable]
    rfl

/-- Two connections of one host. -/
def clientTuple (srcPort : UInt16) : FiveTuple := ⟨0x0A000001, 0x0A000002, srcPort, 443, 6⟩

/-- Two tuples with the same hash; the first is removed, and the second, now entry 0, is found
behind the tombstone. -/
theorem route_table_refines_collision :
    let p₀ : DpdkPoller Nat := ⟨64, [], fun _ => .initial, 0⟩
    let calls := [PollerCall.add (some 1) (clientTuple 50000),
      .add (some 2) (clientTuple 50001), .remove (some 1)]
    let found := findRouteSlot (p₀.run (fun _ => 7) calls).routeTable 7 (clientTuple 50001)
    found.1 ≠ kInvalidSlot ∧ found.1.toNat = 0 :=
  ((route_table_refines (fun _ => 7) (rfl : DpdkPoller.create Nat 64 = _) _).1 (clientTuple 50001)
    0).mpr
    ⟨⟨2, 7, clientTuple 50001⟩, by decide +kernel, rfl⟩

end Runs

end Eph.Net.Dpdk
