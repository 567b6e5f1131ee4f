import Mathlib.Data.List.Pairwise
import Mathlib.Tactic.Linarith

/-!
# The fixed-depth order book

`ArrayBook` keeps the best price levels of each side in an array, best first.  The
functions here follow `update_side`: a search for the price, and either a removal, an
update in place, or an insertion that may push the last level out.

Prices are compared with a tolerance.  On prices that lie further apart than that
(`Separated`) an update takes a level out or puts it in (`updateSide_spec`).  On any prices
a side stays in order (`sides_stay_ordered`), unless a new price is better than a stored one
by exactly the tolerance (`bids_out_of_order`).  The arithmetic on doubles goes through a
rounding function `fl`.
-/

namespace Eph.Book

open List

/-- The side of an order or of a price level. -/
inductive Side
  | bid
  | ask
  deriving DecidableEq

/-- Bids are kept in descending order. -/
def Side.descending : Side → Bool
  | .bid => true
  | .ask => false

/-- A price and the quantity resting there. -/
structure PriceLevel where
  price : ℚ
  qty : ℚ
  deriving DecidableEq

section Update

variable (fl : ℚ → ℚ)

/-- The tolerance of price comparisons, `1e-12`. -/
def kEps : ℚ :=
  fl (1 / 10 ^ 12)

/-- `price_eq`. -/
def priceEq (a b : ℚ) : Bool :=
  decide (|fl (a - b)| < kEps fl)

/-- Does a new level go before this one? -/
def shouldInsert (descending : Bool) (price : ℚ) (level : PriceLevel) : Bool :=
  if descending then decide (price > fl (level.price + kEps fl))
  else decide (price < fl (level.price - kEps fl))

/-- `update_side`.  The prices and quantities here are finite, so its first two checks
have nothing to reject. -/
def updateSide (maxLevels : ℕ) (levels : List PriceLevel) (price qty : ℚ)
    (descending : Bool) : List PriceLevel :=
  let qty := if qty < 0 then 0 else qty
  match levels.findIdx? fun level => priceEq fl level.price price with
  | some i =>
    if qty ≤ 0 then levels.eraseIdx i
    else levels.modify i fun level => { level with qty := qty }
  | none =>
    if qty ≤ 0 then levels
    else
      let pos := levels.findIdx (shouldInsert fl descending price)
      let inserted := levels.take pos ++ ⟨price, qty⟩ :: levels.drop pos
      if levels.length ≥ maxLevels then
        -- The last level falls off, or the new one does not get in.
        if pos ≥ maxLevels then levels else inserted.take maxLevels
      else inserted

/-- The book never holds more than `maxLevels` levels on a side. -/
theorem length_updateSide_le {maxLevels : ℕ} {levels : List PriceLevel}
    (h : levels.length ≤ maxLevels) (price qty : ℚ) (descending : Bool) :
    (updateSide fl maxLevels levels price qty descending).length ≤ maxLevels := by
  unfold updateSide
  dsimp only
  generalize (if qty < 0 then 0 else qty) = qty
  split
  · split_ifs
    · exact Nat.le_trans (length_eraseIdx_le _ _) h
    · rw [length_modify]
      exact h
  split_ifs
  · exact h
  · exact h
  · rw [length_take]
    exact Nat.min_le_left _ _
  · simp only [length_append, length_cons, length_take, length_drop]
    omega

end Update

/-- An order book with at most `maxLevels` price levels on each side. -/
structure ArrayBook (maxLevels : ℕ) where
  bids : List PriceLevel
  asks : List PriceLevel
  bids_le : bids.length ≤ maxLevels
  asks_le : asks.length ≤ maxLevels

namespace ArrayBook

variable {maxLevels : ℕ}

/-- A new book is empty. -/
def empty : ArrayBook maxLevels :=
  ⟨[], [], Nat.zero_le _, Nat.zero_le _⟩

variable (book : ArrayBook maxLevels)

/-- The levels of one side, the best one first. -/
def levels : Side → List PriceLevel
  | .bid => book.bids
  | .ask => book.asks

/-- `update_bid`. -/
def updateBid (fl : ℚ → ℚ) (book : ArrayBook maxLevels) (price qty : ℚ) : ArrayBook maxLevels :=
  { book with
    bids := updateSide fl maxLevels book.bids price qty true
    bids_le := length_updateSide_le fl book.bids_le price qty true }

/-- `update_ask`. -/
def updateAsk (fl : ℚ → ℚ) (book : ArrayBook maxLevels) (price qty : ℚ) : ArrayBook maxLevels :=
  { book with
    asks := updateSide fl maxLevels book.asks price qty false
    asks_le := length_updateSide_le fl book.asks_le price qty false }

/-- An update of either side. -/
def update (fl : ℚ → ℚ) (book : ArrayBook maxLevels) (u : Side × PriceLevel) :
    ArrayBook maxLevels :=
  match u.1 with
  | .bid => book.updateBid fl u.2.price u.2.qty
  | .ask => book.updateAsk fl u.2.price u.2.qty

/-- `best_bid`. -/
def bestBid : Option PriceLevel :=
  book.bids.head?

/-- `best_ask`. -/
def bestAsk : Option PriceLevel :=
  book.asks.head?

theorem length_levels_le (book : ArrayBook maxLevels) (side : Side) :
    (book.levels side).length ≤ maxLevels := by
  cases side
  · exact book.bids_le
  · exact book.asks_le

/-- An update concerns one side. -/
theorem levels_update (fl : ℚ → ℚ) (u : Side × PriceLevel) (side : Side) :
    (book.update fl u).levels side =
      if side = u.1 then
        updateSide fl maxLevels (book.levels u.1) u.2.price u.2.qty u.1.descending
      else book.levels side := by
  obtain ⟨_ | _, new⟩ := u <;> cases side <;> rfl

end ArrayBook

/-! ## What an update does -/

/-- The better of two prices of a side: the higher bid, the lower ask. -/
def Better (descending : Bool) (a b : ℚ) : Prop :=
  if descending then b < a else a < b

instance (descending : Bool) (a b : ℚ) : Decidable (Better descending a b) := by
  unfold Better
  infer_instance

theorem Better.irrefl {descending : Bool} {a : ℚ} (h : Better descending a a) : False := by
  cases descending <;> exact lt_irrefl a h

theorem Better.trans {descending : Bool} {a b c : ℚ} (hab : Better descending a b)
    (hbc : Better descending b c) : Better descending a c := by
  cases descending
  · exact lt_trans hab hbc
  · exact lt_trans hbc hab

/-- The levels with a new one, at the place that `update_side` finds for it. -/
def inserted (fl : ℚ → ℚ) (descending : Bool) (levels : List PriceLevel) (new : PriceLevel) :
    List PriceLevel :=
  let pos := levels.findIdx (shouldInsert fl descending new.price)
  levels.take pos ++ new :: levels.drop pos

section Cases

variable {fl : ℚ → ℚ} {descending : Bool} {levels : List PriceLevel} {price qty : ℚ}

/-- **The cases of an update**: a level at the price goes or gets a new quantity; without one
nothing happens, or a new level is inserted and the list is cut at the depth of the book. -/
theorem updateSide_cases {maxLevels : ℕ} (hlength : levels.length ≤ maxLevels)
    {result : List PriceLevel}
    (h : updateSide fl maxLevels levels price qty descending = result) :
    (∃ (i : ℕ) (hi : i < levels.length), priceEq fl levels[i].price price = true ∧
      (qty ≤ 0 ∧ result = levels.eraseIdx i ∨
        0 < qty ∧ result = levels.modify i fun level => { level with qty := qty })) ∨
    (∀ level ∈ levels, priceEq fl level.price price = false) ∧
      (qty ≤ 0 ∧ result = levels ∨
        0 < qty ∧ result = (inserted fl descending levels ⟨price, qty⟩).take maxLevels) := by
  have hclamp : (if qty < 0 then 0 else qty) ≤ 0 ↔ qty ≤ 0 := by grind
  unfold updateSide at h
  simp only [hclamp] at h
  cases hfind : levels.findIdx? fun level => priceEq fl level.price price with
  | some i =>
    obtain ⟨hi, hequal, -⟩ := findIdx?_eq_some_iff_getElem.mp hfind
    refine .inl ⟨i, hi, hequal, ?_⟩
    rw [hfind] at h
    dsimp only at h
    split_ifs at h with hq hneg
    · exact .inl ⟨hq, h.symm⟩
    · exact absurd hneg.le hq
    · exact .inr ⟨not_le.mp hq, h.symm⟩
  | none =>
    refine .inr ⟨findIdx?_eq_none_iff.mp hfind, ?_⟩
    rw [hfind] at h
    by_cases hq : qty ≤ 0
    · exact .inl ⟨hq, by simpa only [if_pos hq] using h.symm⟩
    refine .inr ⟨not_le.mp hq, ?_⟩
    simp only [if_neg hq, if_neg (fun hneg => hq (le_of_lt hneg))] at h
    subst h
    split_ifs with hfull hlast
    · -- Worse than every level of a full book.
      have hpos : levels.findIdx (shouldInsert fl descending price) = levels.length :=
        Nat.le_antisymm findIdx_le_length (by omega)
      obtain rfl := Nat.le_antisymm hlength hfull
      rw [inserted, hpos, take_length, take_left]
    · rfl
    · refine (take_of_length_le ?_).symm
      simp only [length_append, length_cons, length_take, length_drop]
      omega

theorem mem_inserted {new level : PriceLevel} :
    level ∈ inserted fl descending levels new ↔ level = new ∨ level ∈ levels := by
  unfold inserted
  rw [perm_middle.mem_iff, take_append_drop, mem_cons]

/-- A new level comes where it belongs, if the search is right about each level. -/
theorem pairwise_inserted (R : ℚ → ℚ → Prop) (htrans : ∀ {a b c}, R a b → R b c → R a c)
    (h : levels.Pairwise fun a b => R a.price b.price) {new : PriceLevel}
    (hplace : ∀ level ∈ levels, if shouldInsert fl descending new.price level then
      R new.price level.price else R level.price new.price) :
    (inserted fl descending levels new).Pairwise fun a b => R a.price b.price := by
  induction levels with
  | nil => exact pairwise_singleton _ _
  | cons level levels ih =>
    have hhead := hplace level mem_cons_self
    have hrest := ih h.of_cons fun l hl => hplace l (mem_cons_of_mem _ hl)
    unfold inserted at hrest ⊢
    rw [findIdx_cons]
    cases hinsert : shouldInsert fl descending new.price level with
    | true =>
      rw [if_pos hinsert] at hhead
      refine pairwise_cons.mpr ⟨?_, h⟩
      rintro other (_ | ⟨_, hother⟩)
      · exact hhead
      · exact htrans hhead (rel_of_pairwise_cons h hother)
    | false =>
      rw [if_neg (by simp [hinsert])] at hhead
      refine pairwise_cons.mpr ⟨fun other hother => ?_, hrest⟩
      rcases mem_inserted.mp hother with rfl | hother
      · exact hhead
      · exact rel_of_pairwise_cons h hother

/-- A new quantity leaves the prices as they are. -/
theorem pairwise_modify (R : ℚ → ℚ → Prop) (h : levels.Pairwise fun a b => R a.price b.price)
    (i : ℕ) :
    (levels.modify i fun level => { level with qty := qty }).Pairwise
      fun a b => R a.price b.price := by
  have hprices : (levels.modify i fun level => { level with qty := qty }).map PriceLevel.price =
      levels.map PriceLevel.price := ext_getElem (by simp) (by grind)
  exact pairwise_map.mp (hprices ▸ pairwise_map.mpr h)

end Cases

/-! ## Updates on separated prices -/

/-- Prices that the tolerance tells apart: on them the comparisons of `update_side` are
those of numbers. -/
structure Separated (fl : ℚ → ℚ) (prices : Set ℚ) : Prop where
  eq_iff : ∀ {a b : ℚ}, a ∈ prices → b ∈ prices → (priceEq fl a b = true ↔ a = b)
  above : ∀ {a b : ℚ}, a ∈ prices → b ∈ prices → a ≠ b → (fl (a + kEps fl) < b ↔ a < b)
  below : ∀ {a b : ℚ}, a ∈ prices → b ∈ prices → a ≠ b → (b < fl (a - kEps fl) ↔ b < a)

/-- On separated prices the search is right about a level at another price. -/
theorem Separated.search {fl : ℚ → ℚ} {prices : Set ℚ} (h : Separated fl prices)
    {descending : Bool} {level : PriceLevel} {price : ℚ} (hlevel : level.price ∈ prices)
    (hprice : price ∈ prices) (hne : level.price ≠ price) :
    if shouldInsert fl descending price level then Better descending price level.price
    else Better descending level.price price := by
  have habove := h.above hlevel hprice hne
  have hbelow := h.below hlevel hprice hne
  unfold shouldInsert Better
  cases descending <;> grind

/-- Levels in order, the best one first. -/
def Ordered (descending : Bool) (levels : List PriceLevel) : Prop :=
  levels.Pairwise fun a b => Better descending a.price b.price

/-- No two levels of an ordered list are at the same price. -/
theorem Ordered.price_inj {descending : Bool} {levels : List PriceLevel}
    (h : Ordered descending levels) {i j : ℕ} (hi : i < levels.length) (hj : j < levels.length)
    (heq : levels[i].price = levels[j].price) : i = j := by
  have hlt := pairwise_iff_getElem.mp h
  rcases lt_trichotomy i j with hij | hij | hij
  · exact (heq ▸ hlt i j hi hj hij).irrefl.elim
  · exact hij
  · exact (heq ▸ hlt j i hj hi hij).irrefl.elim

/-- **An update** on separated prices takes the level at its price out, or puts it in, and cuts
the list at the depth of the book. -/
theorem updateSide_spec {fl : ℚ → ℚ} {prices : Set ℚ} {descending : Bool}
    {levels : List PriceLevel} {price : ℚ} (qty : ℚ) (hsep : Separated fl prices)
    (hprice : price ∈ prices) (hlevels : ∀ level ∈ levels, level.price ∈ prices) {maxLevels : ℕ}
    (hordered : Ordered descending levels) (hlength : levels.length ≤ maxLevels) :
    ∃ full, updateSide fl maxLevels levels price qty descending = full.take maxLevels ∧
      Ordered descending full ∧ ∀ level, level ∈ full ↔
        0 < qty ∧ level = ⟨price, qty⟩ ∨ level ∈ levels ∧ level.price ≠ price := by
  -- The level at index `i` is the one at the price.
  have hat {i : ℕ} (hi : i < levels.length) (hequal : priceEq fl levels[i].price price = true)
      {j : ℕ} (hj : j < levels.length) : levels[j].price ≠ price ↔ j ≠ i := by
    have hhere := (hsep.eq_iff (hlevels _ (getElem_mem hi)) hprice).mp hequal
    rw [← hhere]
    exact ⟨fun hne hji => hne (by simp [hji]), fun hne heq => hne (hordered.price_inj hj hi heq)⟩
  have hne (habsent : ∀ level ∈ levels, priceEq fl level.price price = false) :
      ∀ level ∈ levels, level.price ≠ price := by
    intro level hmem heq
    have hno := habsent level hmem
    rw [(hsep.eq_iff (hlevels level hmem) hprice).mpr heq] at hno
    cases hno
  generalize hresult : updateSide fl maxLevels levels price qty descending = result
  rcases updateSide_cases hlength hresult with ⟨i, hi, hequal, ⟨hq, rfl⟩ | ⟨hq, rfl⟩⟩ |
    ⟨habsent, ⟨hq, rfl⟩ | ⟨hq, rfl⟩⟩
  · refine ⟨_, (take_of_length_le (Nat.le_trans (length_eraseIdx_le ..) hlength)).symm,
      Pairwise.sublist (eraseIdx_sublist _ _) hordered, fun level => ?_⟩
    have := @hat i hi hequal
    rw [mem_eraseIdx_iff_getElem, mem_iff_getElem]
    grind
  · refine ⟨_, (take_of_length_le (by rwa [length_modify])).symm, pairwise_modify _ hordered i,
      fun level => ?_⟩
    have := @hat i hi hequal
    rw [mem_iff_getElem, mem_iff_getElem]
    grind
  · refine ⟨_, (take_of_length_le hlength).symm, hordered, fun level => ?_⟩
    have := hne habsent level
    grind
  · refine ⟨_, rfl, pairwise_inserted (Better descending) Better.trans hordered ?_, fun level => ?_⟩
    · exact fun level hmem => hsep.search (hlevels level hmem) hprice (hne habsent level hmem)
    · rw [mem_inserted]
      have := hne habsent level
      grind

/-! ## Updates at any price, with exact arithmetic -/

/-- The price better than a level's by exactly the tolerance: not equal to it for
`price_eq`, and yet `update_side` does not put a new level at it before this one. -/
def edge (descending : Bool) (level : PriceLevel) : ℚ :=
  if descending then level.price + kEps id else level.price - kEps id

/-- `a` is the better price, and `price_eq` tells the two apart. -/
def Precedes (descending : Bool) (a b : ℚ) : Prop :=
  Better descending a b ∧ priceEq id a b = false

/-- A side as `update_side` expects it. -/
structure Tidy (descending : Bool) (levels : List PriceLevel) : Prop where
  ordered : levels.Pairwise fun a b => Precedes descending a.price b.price
  positive : ∀ level ∈ levels, 0 < level.qty

section Exact

variable {descending : Bool} {levels : List PriceLevel} {price : ℚ}

theorem kEps_id_pos : 0 < kEps id := by
  norm_num [kEps]

theorem precedes_iff {a b : ℚ} :
    Precedes descending a b ↔ kEps id ≤ if descending then a - b else b - a := by
  have hpos := kEps_id_pos
  unfold Precedes Better priceEq
  rw [decide_eq_false_iff_not, not_lt, id, le_abs]
  cases descending <;> grind

theorem Precedes.trans {a b c : ℚ} (hab : Precedes descending a b)
    (hbc : Precedes descending b c) : Precedes descending a c := by
  have hpos := kEps_id_pos
  rw [precedes_iff] at *
  cases descending <;> grind

/-- Away from the edge of a level, the search is right about it. -/
theorem precedes_of_search {level : PriceLevel} (hne : priceEq id level.price price = false)
    (hedge : price ≠ edge descending level) :
    if shouldInsert id descending price level then Precedes descending price level.price
    else Precedes descending level.price price := by
  rw [priceEq, decide_eq_false_iff_not, not_lt, id, le_abs] at hne
  unfold shouldInsert edge at *
  simp only [precedes_iff]
  cases descending <;> grind

theorem Tidy.sublist (h : Tidy descending levels) {part : List PriceLevel}
    (hpart : part <+ levels) : Tidy descending part :=
  ⟨h.ordered.sublist hpart, fun level hmem => h.positive level (hpart.subset hmem)⟩

/-- **One update** keeps a side tidy, unless it brings a level to the edge of another. -/
theorem Tidy.updateSide (h : Tidy descending levels) {maxLevels : ℕ} {qty : ℚ}
    (hlength : levels.length ≤ maxLevels)
    (hedge : 0 < qty → ∀ level ∈ levels, price ≠ edge descending level) :
    Tidy descending (updateSide id maxLevels levels price qty descending) := by
  generalize hresult : Book.updateSide id maxLevels levels price qty descending = result
  rcases updateSide_cases hlength hresult with ⟨i, hi, -, ⟨hq, rfl⟩ | ⟨hq, rfl⟩⟩ |
    ⟨habsent, ⟨hq, rfl⟩ | ⟨hq, rfl⟩⟩
  · exact h.sublist (eraseIdx_sublist _ _)
  · refine ⟨pairwise_modify (Precedes descending) h.ordered i, fun level hmem => ?_⟩
    obtain ⟨j, hj, rfl⟩ := mem_iff_getElem.mp hmem
    rw [getElem_modify]
    split_ifs
    · exact hq
    · exact h.positive _ (getElem_mem _)
  · exact h
  · have hsearch := fun level hmem =>
      precedes_of_search (habsent level hmem) (hedge hq level hmem)
    refine Tidy.sublist ⟨pairwise_inserted (Precedes descending) Precedes.trans h.ordered hsearch,
      fun level hmem => ?_⟩ (take_sublist _ _)
    rcases mem_inserted.mp hmem with rfl | hmem
    · exact hq
    · exact h.positive level hmem

end Exact

namespace ArrayBook

variable {maxLevels : ℕ} {book : ArrayBook maxLevels}

/-- Does this update keep away from the edges of the stored levels? -/
@[reducible] def Clear (book : ArrayBook maxLevels) (u : Side × PriceLevel) : Prop :=
  0 < u.2.qty → ∀ level ∈ book.levels u.1, u.2.price ≠ edge u.1.descending level

/-- Both sides are tidy. -/
def Sound (book : ArrayBook maxLevels) : Prop :=
  ∀ side, Tidy side.descending (book.levels side)

/-- An update that is clear of the levels keeps the book sound. -/
theorem Sound.updated (h : book.Sound) {u : Side × PriceLevel} (hclear : book.Clear u) :
    (book.update id u).Sound := by
  intro side
  rw [levels_update]
  split_ifs with hside
  · exact hside ▸ (h u.1).updateSide (length_levels_le _ _) hclear
  · exact h side

/-- So does a run of them. -/
theorem Sound.run (h : book.Sound) (updates : List (Side × PriceLevel))
    (hclear : ∀ (i : ℕ) (hi : i < updates.length),
      ((updates.take i).foldl (update id) book).Clear updates[i]) :
    (updates.foldl (update id) book).Sound := by
  induction updates generalizing book with
  | nil => exact h
  | cons u updates ih =>
    exact ih (h.updated (hclear 0 (Nat.succ_pos _)))
      fun i hi => hclear (i + 1) (Nat.succ_lt_succ hi)

/-- **The sides stay ordered** over every run of updates of which none with a quantity is
better than a stored level by exactly the tolerance. -/
theorem sides_stay_ordered (updates : List (Side × PriceLevel))
    (hclear : ∀ (i : ℕ) (hi : i < updates.length),
      ((updates.take i).foldl (update id) (empty : ArrayBook maxLevels)).Clear updates[i])
    (side : Side) :
    let levels := (updates.foldl (update id) (empty : ArrayBook maxLevels)).levels side
    Tidy side.descending levels ∧ levels.length ≤ maxLevels := by
  have hempty : (empty : ArrayBook maxLevels).Sound := by
    rintro (_ | _) <;> exact ⟨.nil, fun level hmem => by cases hmem⟩
  exact ⟨hempty.run updates hclear side, length_levels_le _ _⟩

/-- A bid that `price_eq` takes for the first, one worse than it by exactly the tolerance, and
the removal of the first. -/
theorem sides_stay_ordered_close :
    Tidy true ([(.bid, ⟨0, 1⟩), (.bid, ⟨1 / 10 ^ 13, 2⟩), (.bid, ⟨-1 / 10 ^ 12, 3⟩),
      (.bid, ⟨0, 0⟩)].foldl (update id) (empty : ArrayBook 2)).bids :=
  (sides_stay_ordered _ (by decide +kernel) .bid).1

/-- A bid better than another by exactly the tolerance comes behind it. -/
theorem bids_out_of_order :
    ¬ Tidy true ([(.bid, ⟨0, 1⟩), (.bid, ⟨1 / 10 ^ 12, 1⟩)].foldl (update id)
      (empty : ArrayBook 2)).bids := by
  intro h
  exact absurd h.ordered (by unfold Precedes; decide +kernel)

end ArrayBook

end Eph.Book
