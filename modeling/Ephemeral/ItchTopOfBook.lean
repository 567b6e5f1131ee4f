import Ephemeral.ItchAggregation
import Mathlib.Data.List.Dedup
import Mathlib.Data.List.Perm.Subperm

/-!
# The top of an ITCH book

The builder tells the book of every level that changes, and of no other.  A book of depth
`D` forgets a level that falls off its end, and nobody tells it of that level again when
the better ones are gone (`hidden_level_not_shown`).  In a run with live orders at no
more than `D` prices of a side nothing falls off, the book shows every live level
(`Shows`), and its first level is the best live price with all that rests there
(`itch_top_of_book`).
-/

namespace Eph.Book

open ByteOrder Itch KeyedSum List OrderTable

variable {side : Side} {price : UInt32}

/-- The best level of a side. -/
def ArrayBook.best {maxLevels : ℕ} (book : ArrayBook maxLevels) : Side → Option PriceLevel
  | .bid => book.bestBid
  | .ask => book.bestAsk

namespace OrderTable

/-- The prices at which there are live orders on a side. -/
def livePrices (t : OrderTable) (side : Side) : List UInt32 :=
  ((t.entries.filter fun e => e.2.side = side).map fun e => e.2.price).dedup

theorem mem_livePrices {t : OrderTable} :
    price ∈ livePrices t side ↔
      ∃ ref o, t.lookup ref = some o ∧ o.side = side ∧ o.price = price := by
  unfold livePrices
  rw [mem_dedup, mem_map]
  constructor
  · rintro ⟨⟨ref, o⟩, hmem, rfl⟩
    rw [mem_filter] at hmem
    exact ⟨ref, o, AList.mem_lookup_iff.mpr hmem.1, of_decide_eq_true hmem.2, rfl⟩
  · rintro ⟨ref, o, hlookup, hside, rfl⟩
    refine ⟨⟨ref, o⟩, mem_filter.mpr ⟨AList.mem_lookup_iff.mp hlookup, ?_⟩, rfl⟩
    exact decide_eq_true hside

/-- Where something rests there is an order. -/
theorem mem_livePrices_of_levelQty {t : OrderTable} (h : 0 < levelQty t side price) :
    price ∈ livePrices t side := by
  have hne : ¬ ∀ n ∈ t.entries.map fun e => weight side price e.1 e.2, n = 0 := by
    intro hzero
    rw [levelQty, total, sum_eq_zero hzero] at h
    exact Nat.lt_irrefl 0 h
  simp only [not_forall] at hne
  obtain ⟨n, hmem, hn⟩ := hne
  obtain ⟨⟨ref, o⟩, hentry, rfl⟩ := mem_map.mp hmem
  rw [mem_livePrices]
  by_cases hat : o.side = side ∧ o.price = price
  · exact ⟨ref, o, AList.mem_lookup_iff.mpr hentry, hat.1, hat.2⟩
  · exact absurd (if_neg hat) hn

/-- A table for which a book of depth `depth` is deep enough: no sum beyond what a double
holds, no order for nothing, and live orders at no more than `depth` prices of a side. -/
structure Fits (depth : ℕ) (t : OrderTable) : Prop where
  bounded : Bounded t
  positive : ∀ ref o, t.lookup ref = some o → 0 < o.qty
  shallow : ∀ side, (livePrices t side).length ≤ depth

theorem Fits.erase {depth : ℕ} {t : OrderTable} (h : Fits depth t) (ref : UInt64) :
    Fits depth (t.erase ref) where
  bounded := h.bounded.erase ref
  positive := by
    intro ref' o hlookup
    by_cases href : ref' = ref
    · rw [href, AList.lookup_erase] at hlookup
      cases hlookup
    · rw [AList.lookup_erase_ne href] at hlookup
      exact h.positive ref' o hlookup
  shallow := by
    intro side
    refine Nat.le_trans (List.Subperm.length_le ?_) (h.shallow side)
    refine List.Nodup.subperm (nodup_dedup _) ?_
    intro price hprice
    obtain ⟨ref', o, hlookup, hside, hat⟩ := mem_livePrices.mp hprice
    refine mem_livePrices.mpr ⟨ref', o, ?_, hside, hat⟩
    by_cases href : ref' = ref
    · rw [href, AList.lookup_erase] at hlookup
      cases hlookup
    · rwa [AList.lookup_erase_ne href] at hlookup

end OrderTable

/-! ## Every live level is shown -/

/-- The level of a price, as the book shows it. -/
def OrderTable.level (t : OrderTable) (side : Side) (price : UInt32) : PriceLevel :=
  ⟨levelKey price, t.levelQty side price⟩

/-- The book shows the live levels, in order. -/
def Shows {maxLevels : ℕ} (b : ItchBookBuilder maxLevels) (t : OrderTable) : Prop :=
  ∀ side, Ordered side.descending (b.book.levels side) ∧
    ∀ level, level ∈ b.book.levels side ↔
      ∃ price, 0 < t.levelQty side price ∧ level = t.level side price

section Shows

open OrderTable ItchBookBuilder

variable {maxLevels : ℕ} {b b' : ItchBookBuilder maxLevels} {t t' : OrderTable}

theorem levels_updateBook (fl : ℚ → ℚ) (b : ItchBookBuilder maxLevels) (side side' : Side)
    (qp v : ℚ) :
    (b.updateBook fl side qp v).book.levels side' =
      if side' = side then updateSide fl maxLevels (b.book.levels side) qp v side.descending
      else b.book.levels side' := by
  cases side <;> cases side' <;> rfl

variable {levels : List PriceLevel}

/-- A list of live levels is no longer than the list of live prices. -/
theorem length_le_livePrices (hordered : Ordered side.descending levels)
    (hlive : ∀ level ∈ levels, ∃ price, 0 < t.levelQty side price ∧ level = t.level side price) :
    levels.length ≤ (livePrices t side).length := by
  have hnodup : (levels.map PriceLevel.price).Nodup := by
    rw [List.Nodup, pairwise_map]
    refine hordered.imp ?_
    intro a c hbetter heq
    rw [heq] at hbetter
    exact hbetter.irrefl
  have hsubset : levels.map PriceLevel.price ⊆ (livePrices t side).map levelKey := by
    intro key hkey
    obtain ⟨level, hmem, rfl⟩ := mem_map.mp hkey
    obtain ⟨price, hpos, rfl⟩ := hlive level hmem
    exact mem_map.mpr ⟨price, mem_livePrices_of_levelQty hpos, rfl⟩
  have hle := (List.Nodup.subperm hnodup hsubset).length_le
  rwa [length_map, length_map] at hle

/-- The levels of a side other than the one at `price` are the live ones. -/
def OthersShown (t : OrderTable) (side : Side) (price : UInt32) (levels : List PriceLevel) : Prop :=
  ∀ level, level ∈ levels ∧ level.price ≠ levelKey price ↔
    ∃ other, other ≠ price ∧ 0 < t.levelQty side other ∧ level = t.level side other

theorem Shows.othersShown (hshows : Shows b t)
    (hother : ∀ side' price', ¬ (side' = side ∧ price' = price) →
      t'.levelQty side' price' = t.levelQty side' price') :
    OthersShown t' side price (b.book.levels side) := by
  have hsame : ∀ {other : UInt32}, other ≠ price →
      t'.levelQty side other = t.levelQty side other ∧
        t'.level side other = t.level side other := by
    intro other hne
    have hqty := hother side other fun h => hne h.2
    exact ⟨hqty, by rw [level, level, hqty]⟩
  intro level
  rw [(hshows side).2]
  constructor
  · rintro ⟨⟨other, hpos, rfl⟩, hne⟩
    have hother : other ≠ price := fun h => hne (congrArg levelKey h)
    exact ⟨other, hother, (hsame hother).1 ▸ hpos, (hsame hother).2.symm⟩
  · rintro ⟨other, hne, hpos, rfl⟩
    exact ⟨⟨other, (hsame hne).1 ▸ hpos, (hsame hne).2⟩, fun h => hne (levelKey_injective h)⟩

/-- The level at `price` is shown with the others, if it has live orders. -/
theorem OthersShown.all (hothers : OthersShown t side price levels) (level : PriceLevel) :
    0 < (t.levelQty side price : ℚ) ∧ level = t.level side price ∨
        level ∈ levels ∧ level.price ≠ levelKey price ↔
      ∃ other, 0 < t.levelQty side other ∧ level = t.level side other := by
  rw [hothers, Nat.cast_pos]
  constructor
  · rintro (hlive | ⟨other, -, hlive⟩)
    · exact ⟨price, hlive⟩
    · exact ⟨other, hlive⟩
  · rintro ⟨other, hlive⟩
    by_cases heq : other = price
    · exact .inl (heq ▸ hlive)
    · exact .inr ⟨other, heq, hlive⟩

/-- **One level.**  A change that leaves the table fitting is shown. -/
theorem Shows.move (hshows : Shows b t) (hfits : Fits maxLevels t')
    (hmove : LevelMove b t b' t') : Shows b' t' := by
  obtain ⟨side, price, hbook, hother⟩ := hmove.change
  intro side'
  rw [hbook, levels_updateBook]
  split_ifs with hside
  · subst hside
    obtain ⟨hordered, hmem⟩ := hshows side'
    have hothers := hshows.othersShown hother
    have hlevels : ∀ level ∈ b.book.levels side', level.price ∈ Set.range levelKey := by
      intro level hlevel
      obtain ⟨other, -, rfl⟩ := (hmem level).mp hlevel
      exact ⟨other, rfl⟩
    obtain ⟨full, hresult, hfull, hmem'⟩ := updateSide_spec (t'.levelQty side' price)
      separated_levelKey ⟨price, rfl⟩ hlevels hordered (ArrayBook.length_levels_le _ _)
    have hlive := fun level => (hmem' level).trans (hothers.all level)
    -- The live levels are no more than the book has room for, so nothing is cut off.
    have hroom := Nat.le_trans
      (length_le_livePrices hfull fun level hlevel => (hlive level).mp hlevel)
      (hfits.shallow side')
    rw [hresult, take_of_length_le hroom]
    exact ⟨hfull, hlive⟩
  · obtain ⟨hordered, hmem⟩ := hshows side'
    refine ⟨hordered, ?_⟩
    intro level
    rw [hmem]
    unfold OrderTable.level
    simp only [hother side' _ fun h => hside h.1]

end Shows

/-! ## The top -/

/-- What the first level of a side should be: nothing without live orders, and otherwise
the best price of a live order with all that rests at that price. -/
structure TopOfBook {maxLevels : ℕ} (b : ItchBookBuilder maxLevels) (side : Side) : Prop where
  best : ∀ ref ord, b.orders.lookup ref = some ord → ord.side = side →
    ∃ ref' top, b.orders.lookup ref' = some top ∧ top.side = side ∧
      (∀ ref'' other, b.orders.lookup ref'' = some other → other.side = side →
        ¬ Better side.descending other.price top.price) ∧
      b.book.best side =
        some ⟨quantize Binary64.round top.price, b.liveQty side top.price⟩
  empty : (∀ ref ord, b.orders.lookup ref = some ord → ord.side ≠ side) → b.book.best side = none

section Top

open OrderTable

variable {maxLevels : ℕ} {b : ItchBookBuilder maxLevels} {t : OrderTable} {side : Side}

theorem best_eq_head (book : ArrayBook maxLevels) (side : Side) :
    book.best side = (book.levels side).head? := by
  cases side <;> rfl

/-- The canonical prices come in the order of the prices. -/
theorem better_levelKey {descending : Bool} {p q : UInt32} :
    Better descending (levelKey p) (levelKey q) ↔
      Better descending (itchPrice Binary64.round p) (itchPrice Binary64.round q) := by
  cases descending
  · exact levelKey_lt_iff.trans itchPrice_lt_iff.symm
  · exact levelKey_lt_iff.trans itchPrice_lt_iff.symm

theorem Aggregates.lookup_some (hagg : Aggregates b t) {ref : UInt64} {ord : Order} :
    b.orders.lookup ref = some ord ↔ ∃ o, t.lookup ref = some o ∧ o.toOrder = ord := by
  rw [hagg.lookup, Option.map_eq_some_iff]

/-- The level of a live order is shown. -/
theorem Shows.mem_levels (hshows : Shows b t) (hfits : Fits maxLevels t) {ref : UInt64}
    {o : LiveOrder} (h : t.lookup ref = some o) :
    t.level o.side o.price ∈ b.book.levels o.side := by
  rw [(hshows o.side).2]
  refine ⟨o.price, ?_, rfl⟩
  have hqty := hfits.positive ref o h
  rw [levelQty_of_lookup h, weight_self]
  omega

/-- A book that shows every live level has the right top. -/
theorem Shows.topOfBook (hshows : Shows b t) (hagg : Aggregates b t) (hfits : Fits maxLevels t)
    (side : Side) : TopOfBook b side where
  best := by
    intro ref ord hlookup hside
    obtain ⟨o, ho, rfl⟩ := hagg.lookup_some.mp hlookup
    obtain rfl : o.side = side := hside
    obtain ⟨hordered, hmem⟩ := hshows o.side
    have hshown := hshows.mem_levels hfits ho
    cases hlevels : b.book.levels o.side with
    | nil =>
      rw [hlevels] at hshown
      cases hshown
    | cons first rest =>
      obtain ⟨price, hpos, hfirst⟩ := (hmem first).mp (hlevels ▸ mem_cons_self)
      obtain ⟨ref', top, htop, hsame, rfl⟩ := mem_livePrices.mp (mem_livePrices_of_levelQty hpos)
      refine ⟨ref', top.toOrder, hagg.lookup_some.mpr ⟨top, htop, rfl⟩, hsame, ?_, ?_⟩
      · intro ref'' other hother hat
        obtain ⟨o', ho', rfl⟩ := hagg.lookup_some.mp hother
        have hshown' := hshows.mem_levels hfits ho'
        change o'.side = o.side at hat
        rw [hat, hlevels] at hshown'
        change ¬ Better _ (itchPrice Binary64.round o'.price) (itchPrice Binary64.round top.price)
        rw [← better_levelKey]
        rcases mem_cons.mp hshown' with heq | hrest
        · rw [hfirst] at heq
          rw [show levelKey o'.price = levelKey top.price from congrArg PriceLevel.price heq]
          exact fun h => h.irrefl
        · rw [hlevels] at hordered
          have hworse := rel_of_pairwise_cons hordered hrest
          rw [hfirst] at hworse
          exact fun h => (h.trans hworse).irrefl
      · rw [best_eq_head, hlevels, head?_cons, hfirst]
        have hlive := hagg.liveQty o.side top.price
        rw [show b.liveQty o.side top.toOrder.price = t.levelQty o.side top.price from hlive]
        rfl
  empty := by
    intro hnone
    rw [best_eq_head, head?_eq_none_iff, eq_nil_iff_forall_not_mem]
    intro level hlevel
    obtain ⟨price, hpos, -⟩ := ((hshows side).2 level).mp hlevel
    obtain ⟨ref, o, ho, hside, -⟩ := mem_livePrices.mp (mem_livePrices_of_levelQty hpos)
    exact hnone ref o.toOrder (hagg.lookup_some.mpr ⟨o, ho, rfl⟩) hside

theorem carried_shows (maxLevels : ℕ) : @Carried maxLevels (Fits maxLevels) Shows where
  start := by
    intro side
    refine ⟨?_, ?_⟩
    · cases side <;> exact List.Pairwise.nil
    intro level
    constructor
    · intro hmem
      cases side <;> cases hmem
    · rintro ⟨price, hpos, -⟩
      exact absurd hpos (Nat.lt_irrefl 0)
  bounded := Fits.bounded
  erase := fun ref h => h.erase ref
  move := fun _ hshows hfits hmove => hshows.move hfits hmove

/-- **Top of book.**  In a run whose live orders never stand at more prices of a side than
the book has levels, with no order for zero shares and no sum beyond `2 ^ 53`, the first
level of each side is the best live price with all that rests there. -/
theorem itch_top_of_book (maxLevels : ℕ) (msgs : List MessageView)
    (hfits : ∀ front, front <+: msgs → Fits maxLevels (run front)) (side : Side) :
    TopOfBook (builderAfter maxLevels msgs) side := by
  obtain ⟨hagg, hshows⟩ := (carried_shows maxLevels).run hfits
  exact hshows.topOfBook hagg (hfits msgs (prefix_refl _)) side

end Top

/-- The message that takes an order out. -/
def deleteMessage (ref : ℕ) : MessageView where
  msgType := kOrderDelete
  data := List.replicate 11 0 ++ toBe 8 ref

/-- A bid at ten dollars, one at eleven, and the better one taken out. -/
def betterBidGone : List MessageView :=
  [buyMessage 1 100000 100, buyMessage 2 110000 100, deleteMessage 2]

/-- A book of two levels has room for both bids. -/
theorem itch_top_of_book_two :
    (∀ front, front <+: betterBidGone → OrderTable.Fits 2 (run front)) ∧
      TopOfBook (builderAfter 2 betterBidGone) .bid := by
  have hfits : ∀ front, front <+: betterBidGone → OrderTable.Fits 2 (run front) := by
    have hdecided : ∀ front ∈ betterBidGone.inits,
        total (fun _ o => o.qty) (run front) ≤ 2 ^ 53 ∧
          (∀ e ∈ (run front).entries, 0 < e.2.qty) ∧
          ((run front).livePrices .bid).length ≤ 2 ∧
          ((run front).livePrices .ask).length ≤ 2 := by
      decide
    intro front hfront
    obtain ⟨hbounded, hpositive, hbids, hasks⟩ := hdecided front ((mem_inits ..).mpr hfront)
    refine ⟨bounded_of_total hbounded, fun ref o hlookup => ?_, fun side => ?_⟩
    · exact hpositive ⟨ref, o⟩ (AList.mem_lookup_iff.mp hlookup)
    · cases side
      · exact hbids
      · exact hasks
  exact ⟨hfits, itch_top_of_book 2 betterBidGone hfits .bid⟩

/-- A book of one level shows no bid, though there is one. -/
theorem hidden_level_not_shown :
    ∃ ord, (builderAfter 1 betterBidGone).orders.lookup 1 = some ord ∧ ord.side = .bid ∧
      (builderAfter 1 betterBidGone).book.bestBid = none := by
  refine ⟨⟨itchPrice Binary64.round 100000, 100, .bid⟩, ?_⟩
  decide +kernel

end Eph.Book
