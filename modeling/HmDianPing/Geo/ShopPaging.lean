import HmDianPing.Text.Decimal
import Mathlib.Data.List.Dedup
import Mathlib.Logic.Function.Basic

/-! # Shops near a position, page by page

A page of the shops of a type is the tail of a prefix of the distance order, and both
bounds are 32-bit products of a number the client sends. Each page is compared with the
ten positions it is meant to show.
-/
namespace HmDianPing.Geo
open Text

abbrev Long := ℤ

abbrev Failure := String

def IsLong (n : ℤ) : Prop := -9223372036854775808 ≤ n ∧ n < 9223372036854775808

/-- A row of `tb_shop`; the columns but the id are only passed on. -/
structure Shop (Double Columns : Type) where
  id : Long
  columns : Columns
  distance : Option Double
deriving DecidableEq

/-- `tb_shop`, by its primary key. -/
structure ShopTable (Double Columns : Type) where
  row : Long → Option (Shop Double Columns)
  id_row : ∀ id shop, row id = some shop → shop.id = id

structure GeoLocation (Double : Type) where
  name : Str
  distance : Double

/-- The shops of a type within the radius of a position, the nearest first. -/
structure Nearby (Double : Type) where
  shops : List (Long × Double)
  nodup : (shops.map Prod.fst).Nodup
  long : ∀ shop ∈ shops, IsLong shop.1

/-- Redis, MySQL, and the pages that MyBatis-Plus makes without a position. -/
structure GeoWorld (Double Columns : Type) where
  geo : Int32 → Double → Double → Nearby Double
  tbShop : ShopTable Double Columns
  page : Int32 → Int32 → List (Shop Double Columns)

def defaultPageSize : Int32 := 10

section Query
variable {Double Columns : Type}

def location (shop : Long × Double) : GeoLocation Double := ⟨decimal shop.1, shop.2⟩

/-- `GEOSEARCH … COUNT limit ASC`, whose arguments `GeoSearchCommandArgs.limit` checks. -/
def Nearby.search (near : Nearby Double) (limit : ℤ) :
    Except Failure (Option (List (GeoLocation Double))) :=
  if 0 < limit then .ok (some ((near.shops.take limit.toNat).map location))
  else .error "java.lang.IllegalArgumentException: Count has to positive value!"

def skip {α : Type} (n : ℤ) (l : List α) : Except Failure (List α) :=
  if n < 0 then .error ("java.lang.IllegalArgumentException: " ++ toString n)
  else .ok (l.drop n.toNat)

def shopId (result : GeoLocation Double) : Except Failure Long :=
  match parseLong result.name with
  | some id => .ok id
  | none => .error "java.lang.NumberFormatException"

def put (distances : Str → Option Double) (result : GeoLocation Double) : Str → Option Double :=
  Function.update distances result.name (some result.distance)

def distanceMap (page : List (GeoLocation Double)) : Str → Option Double :=
  page.foldl put fun _ => none

/-- `SELECT … WHERE id IN (ids) ORDER BY FIELD(id, ids)`: a row stands where its id stands first. -/
def ShopTable.listByField (t : ShopTable Double Columns) (ids : List Long) :
    List (Shop Double Columns) := ids.reverse.dedup.reverse.filterMap t.row

def setDistance (distances : Str → Option Double) (shop : Shop Double Columns) :
    Except Failure (Shop Double Columns) :=
  match distances (decimal shop.id) with
  | some distance => .ok { shop with distance := some distance }
  | none => .error "java.lang.NullPointerException"

def ShopTable.shopsOf (t : ShopTable Double Columns) (content : List (GeoLocation Double))
    (fromIndex : ℤ) : Except Failure (List (Shop Double Columns)) := do
  if content.length ≤ fromIndex then
    return []
  let page ← skip fromIndex content
  let ids ← page.mapM shopId
  if ids = [] then
    return []
  (t.listByField ids).mapM (setDistance (distanceMap page))

def GeoWorld.queryShopByType (w : GeoWorld Double Columns) (typeId current : Int32)
    (x y : Option Double) : Except Failure (List (Shop Double Columns)) :=
  match x, y with
  | some x, some y => do
    let fromIndex := (current - 1) * defaultPageSize
    let endIndex := current * defaultPageSize
    let results ← (w.geo typeId x y).search endIndex.toInt
    match results with
    | none => return []
    | some content => w.tbShop.shopsOf content fromIndex.toInt
  | _, _ => .ok (w.page typeId current)

def ShopTable.found (t : ShopTable Double Columns) (shop : Long × Double) :
    Option (Shop Double Columns) :=
  (t.row shop.1).map fun row => { row with distance := some shop.2 }

def Nearby.slice (near : Nearby Double) (start : ℕ) : List (Long × Double) :=
  (near.shops.drop start).take 10

section Page
variable {page : List (Long × Double)} {t : ShopTable Double Columns}

theorem mapM_shopId (hlong : ∀ shop ∈ page, IsLong shop.1) :
    (page.map location).mapM shopId = .ok (page.map Prod.fst) := by
  induction page with
  | nil => rfl
  | cons shop page ih =>
    rw [List.forall_mem_cons] at hlong
    have hid : shopId (location shop) = .ok shop.1 := by
      simp [shopId, location, parseLong_decimal hlong.1]
    rw [List.map_cons, List.mapM_cons, hid, ih hlong.2]
    rfl

theorem foldl_put_of_notMem {name : Str} (h : name ∉ page.map fun shop => decimal shop.1)
    (m : Str → Option Double) : (page.map location).foldl put m name = m name := by
  induction page generalizing m with
  | nil => rfl
  | cons shop page ih =>
    simp only [List.map_cons, List.mem_cons, not_or] at h
    rw [List.map_cons, List.foldl_cons, ih h.2]
    exact Function.update_of_ne h.1 _ _

/-- The names of a page are different, so that each finds its own distance. -/
theorem distanceMap_eq (hnodup : (page.map Prod.fst).Nodup) {shop : Long × Double}
    (hmem : shop ∈ page) : distanceMap (page.map location) (decimal shop.1) = some shop.2 := by
  unfold distanceMap
  generalize (fun _ => none : Str → Option Double) = m
  induction page generalizing m with
  | nil => cases hmem
  | cons first page ih =>
    rw [List.map_cons, List.nodup_cons] at hnodup
    rw [List.map_cons, List.foldl_cons]
    rcases List.mem_cons.mp hmem with rfl | hmem
    · rw [foldl_put_of_notMem]
      · exact Function.update_self _ _ _
      · intro hname
        obtain ⟨other, hother, heq⟩ := List.mem_map.mp hname
        exact hnodup.1 (decimal_injective heq ▸ List.mem_map_of_mem hother)
    · exact ih hnodup.2 hmem _

theorem mapM_setDistance (distances : Str → Option Double) (shops : List (Long × Double))
    (h : ∀ shop ∈ shops, distances (decimal shop.1) = some shop.2) :
    ((shops.map Prod.fst).filterMap t.row).mapM (setDistance distances) =
      .ok (shops.filterMap t.found) := by
  induction shops with
  | nil => rfl
  | cons shop shops ih =>
    rw [List.forall_mem_cons] at h
    rw [List.map_cons]
    cases hrow : t.row shop.1 with
    | none =>
      have hfound : t.found shop = none := by simp [ShopTable.found, hrow]
      rw [List.filterMap_cons_none hrow, List.filterMap_cons_none hfound, ih h.2]
    | some row =>
      have hfound : t.found shop = some { row with distance := some shop.2 } := by
        simp [ShopTable.found, hrow]
      have hset : setDistance distances row = .ok { row with distance := some shop.2 } := by
        simp [setDistance, t.id_row _ _ hrow, h.1]
      rw [List.filterMap_cons_some hrow, List.filterMap_cons_some hfound, List.mapM_cons, hset,
        ih h.2]
      rfl

/-- Behind the skipping, a page is the found shops of its members. -/
theorem shopsOf_eq (shops : List (Long × Double)) (hnodup : (shops.map Prod.fst).Nodup)
    (hlong : ∀ shop ∈ shops, IsLong shop.1) (n : ℕ) :
    t.shopsOf (shops.map location) n = .ok ((shops.drop n).filterMap t.found) := by
  unfold ShopTable.shopsOf
  rw [List.length_map]
  split
  next hshort =>
    rw [List.drop_eq_nil_of_le (by exact_mod_cast hshort)]
    rfl
  next hlonger =>
    have hskip : skip (n : ℤ) (shops.map location) = .ok ((shops.drop n).map location) := by
      rw [skip, if_neg (by omega), List.map_drop]
      rfl
    have hpage : ((shops.drop n).map Prod.fst).Nodup := by
      rw [List.map_drop]
      exact hnodup.sublist (List.drop_sublist _ _)
    have hids : ((shops.drop n).map location).mapM shopId = .ok ((shops.drop n).map Prod.fst) :=
      mapM_shopId fun shop hshop => hlong shop (List.mem_of_mem_drop hshop)
    have hne : (shops.drop n).map Prod.fst ≠ [] := by
      simp
      omega
    have hlist : t.listByField ((shops.drop n).map Prod.fst) =
        ((shops.drop n).map Prod.fst).filterMap t.row := by
      rw [ShopTable.listByField, (List.nodup_reverse.mpr hpage).dedup, List.reverse_reverse]
    simp only [hskip, hids, bind, Except.bind, pure, Except.pure, if_neg hne, hlist]
    exact mapM_setDistance _ _ fun shop hshop => distanceMap_eq hpage hshop

end Page

section Bounds
variable {current : Int32}

theorem toInt_endIndex : (current * defaultPageSize).toInt =
    (10 * current.toInt).bmod 4294967296 := by
  rw [Int32.toInt_mul, mul_comm]
  rfl

theorem toInt_fromIndex (h : 1 ≤ current.toInt) : ((current - 1) * defaultPageSize).toInt =
    (10 * (current.toInt - 1)).bmod 4294967296 := by
  have hlt := current.toInt_lt
  have hone : (current - 1).toInt = current.toInt - 1 := by
    rw [Int32.toInt_sub]
    change (current.toInt - 1).bmod 4294967296 = _
    rw [Int.bmod_def]
    omega
  rw [Int32.toInt_mul, hone, mul_comm]
  rfl

theorem bmod_int (x : ℤ) : x.bmod 4294967296 =
    if x % 4294967296 < 2147483648 then x % 4294967296 else x % 4294967296 - 4294967296 :=
  Int.bmod_def x 4294967296

theorem sub_ten_emod (x : ℤ) : (x - 10) % 4294967296 =
    if 10 ≤ x % 4294967296 then x % 4294967296 - 10 else x % 4294967296 + 4294967286 := by
  have hlow := Int.emod_nonneg x (b := 4294967296) (by decide)
  have hhigh := Int.emod_lt_of_pos x (b := 4294967296) (by decide)
  have hsplit : x - 10 = (x % 4294967296 - 10) + 4294967296 * (x / 4294967296) := by
    have hx := Int.emod_add_mul_ediv x 4294967296
    omega
  rw [hsplit, Int.add_mul_emod_self_left]
  split
  next hten => exact Int.emod_eq_of_lt (by omega) (by omega)
  next hten =>
    have hback : x % 4294967296 - 10 = (x % 4294967296 + 4294967286) + 4294967296 * (-1) := by
      omega
    rw [hback, Int.add_mul_emod_self_left]
    exact Int.emod_eq_of_lt (by omega) (by omega)

/-- Ten times the page number in 32 bits, without a sign. -/
def wrapped (current : Int32) : ℤ := 10 * current.toInt % 4294967296

/-- The product in 32 bits is that of a page. -/
def InBounds (current : Int32) : Prop := 10 ≤ wrapped current ∧ wrapped current < 2147483648

def aliasStart (current : Int32) : ℕ := (wrapped current - 10).toNat

theorem wrapped_of_small (h : 1 ≤ current.toInt) (h' : 10 * current.toInt < 2147483648) :
    wrapped current = 10 * current.toInt := Int.emod_eq_of_lt (by omega) (by omega)

/-- A product that does not fit is of a page much further on. -/
theorem wrapped_of_large (h : 2147483648 ≤ 10 * current.toInt) (hin : InBounds current) :
    wrapped current + 4294967296 ≤ 10 * current.toInt := by
  have hsplit : wrapped current + 4294967296 * (10 * current.toInt / 4294967296) =
      10 * current.toInt := Int.emod_add_mul_ediv _ _
  obtain ⟨-, hhigh⟩ := hin
  omega

/-- The bounds are those of ten positions only when the product, as 32 bits have it, is not negative
and not below ten. -/
theorem bounds_cases (h : 1 ≤ current.toInt) :
    (InBounds current ∧ (current * defaultPageSize).toInt = wrapped current ∧
      ((current - 1) * defaultPageSize).toInt = wrapped current - 10) ∨
    (¬ InBounds current ∧ ((current * defaultPageSize).toInt ≤ 0 ∨
      ((current - 1) * defaultPageSize).toInt < 0)) := by
  have hlow : 0 ≤ wrapped current := Int.emod_nonneg _ (by decide)
  have hhigh : wrapped current < 4294967296 := Int.emod_lt_of_pos _ (by decide)
  have hfrom : 10 * (current.toInt - 1) = 10 * current.toInt - 10 := by omega
  have hten := sub_ten_emod (10 * current.toInt)
  rw [toInt_endIndex, toInt_fromIndex h, hfrom, bmod_int, bmod_int]
  have hwrapped : 10 * current.toInt % 4294967296 = wrapped current := rfl
  rw [hwrapped] at hten ⊢
  unfold InBounds
  generalize (10 * current.toInt - 10) % 4294967296 = start at hten ⊢
  split at hten <;> omega

end Bounds

section Answers
variable (w : GeoWorld Double Columns) (typeId : Int32) (x y : Double) {current : Int32}

/-- The positions a page is meant to show, as the shops of MySQL. -/
def GeoWorld.exactPage (w : GeoWorld Double Columns) (typeId : Int32) (x y : Double)
    (current : Int32) : List (Shop Double Columns) :=
  ((w.geo typeId x y).slice (10 * (current.toInt - 1)).toNat).filterMap w.tbShop.found

theorem shopsOf_negative (t : ShopTable Double Columns) (content : List (GeoLocation Double))
    {n : ℤ} (hn : n < 0) : ∃ e, t.shopsOf content n = .error e := by
  have hsize : ¬ (content.length : ℤ) ≤ n := by omega
  refine ⟨"java.lang.IllegalArgumentException: " ++ toString n, ?_⟩
  simp only [ShopTable.shopsOf, if_neg hsize, skip, if_pos hn, bind, Except.bind]

theorem queryShopByType_inBounds (h : 1 ≤ current.toInt) (hin : InBounds current) :
    w.queryShopByType typeId current (some x) (some y) =
      .ok (((w.geo typeId x y).slice (aliasStart current)).filterMap w.tbShop.found) := by
  obtain ⟨⟨hlow, -⟩, hend, hfrom⟩ | ⟨hout, -⟩ := bounds_cases h
  · have hstart : ((current - 1) * defaultPageSize).toInt = (aliasStart current : ℕ) := by
      rw [hfrom, aliasStart]
      omega
    have hsearch : (w.geo typeId x y).search (current * defaultPageSize).toInt =
        .ok (some (((w.geo typeId x y).shops.take (aliasStart current + 10)).map location)) := by
      have hcount : (wrapped current).toNat = aliasStart current + 10 := by
        rw [aliasStart]
        omega
      rw [Nearby.search, hend, if_pos (by omega), hcount]
    have hnodup : (((w.geo typeId x y).shops.take (aliasStart current + 10)).map Prod.fst).Nodup := by
      rw [List.map_take]
      exact (w.geo typeId x y).nodup.sublist (List.take_sublist _ _)
    have hpage := shopsOf_eq (t := w.tbShop) _ hnodup
      (fun shop hshop => (w.geo typeId x y).long shop (List.mem_of_mem_take hshop))
      (aliasStart current)
    simp only [GeoWorld.queryShopByType, hsearch, hstart, bind, Except.bind, hpage, Nearby.slice,
      List.drop_take, Nat.add_sub_cancel_left]
  · exact absurd hin hout

theorem queryShopByType_outOfBounds (h : 1 ≤ current.toInt) (hout : ¬ InBounds current) :
    ∃ e, w.queryShopByType typeId current (some x) (some y) = .error e := by
  obtain ⟨hin, -⟩ | ⟨-, hbound⟩ := bounds_cases h
  · exact absurd hin hout
  · by_cases hend : 0 < (current * defaultPageSize).toInt
    · have hfrom := hbound.resolve_left (not_le.mpr hend)
      obtain ⟨e, he⟩ := shopsOf_negative w.tbShop
        (((w.geo typeId x y).shops.take (current * defaultPageSize).toInt.toNat).map location) hfrom
      refine ⟨e, ?_⟩
      simp only [GeoWorld.queryShopByType, Nearby.search, if_pos hend, bind, Except.bind, he]
    · refine ⟨"java.lang.IllegalArgumentException: Count has to positive value!", ?_⟩
      simp only [GeoWorld.queryShopByType, Nearby.search, if_neg hend, bind, Except.bind]

end Answers

section Slices
variable {near : Nearby Double} {t : ShopTable Double Columns} {a b : ℕ}

/-- None of the shops at these ten positions is in MySQL. -/
def Missing (near : Nearby Double) (t : ShopTable Double Columns) (start : ℕ) : Prop :=
  ∀ shop ∈ near.slice start, t.row shop.1 = none

theorem filterMap_found_eq_nil :
    (near.slice a).filterMap t.found = [] ↔ Missing near t a := by
  simp [List.filterMap_eq_nil_iff, Missing, ShopTable.found]

theorem slices_disjoint (hab : a + 10 ≤ b) {id : Long} (ha : id ∈ (near.slice a).map Prod.fst) :
    id ∉ (near.slice b).map Prod.fst := by
  have hfirst : id ∈ (near.shops.map Prod.fst).take (a + 10) := by
    rw [Nearby.slice, List.map_take, List.map_drop, ← Nat.add_sub_cancel_left (n := a) (m := 10),
      ← List.drop_take] at ha
    exact List.mem_of_mem_drop ha
  intro hb
  rw [Nearby.slice, List.map_take, List.map_drop] at hb
  have hsecond : id ∈ (near.shops.map Prod.fst).drop b := List.mem_of_mem_take hb
  exact List.disjoint_take_drop near.nodup hab hfirst hsecond

theorem id_of_found {shop : Shop Double Columns} (h : shop ∈ (near.slice a).filterMap t.found) :
    shop.id ∈ (near.slice a).map Prod.fst := by
  obtain ⟨member, hmember, hfound⟩ := List.mem_filterMap.mp h
  obtain ⟨row, hrow, rfl⟩ := Option.map_eq_some_iff.mp hfound
  exact List.mem_map.mpr ⟨member, hmember, (t.id_row _ _ hrow).symm⟩

/-- Two pages of different positions are the same only when both are empty. -/
theorem found_eq_iff (hab : a + 10 ≤ b) :
    (near.slice a).filterMap t.found = (near.slice b).filterMap t.found ↔
      Missing near t a ∧ Missing near t b := by
  rw [← filterMap_found_eq_nil, ← filterMap_found_eq_nil]
  constructor
  · intro heq
    have hnil : (near.slice a).filterMap t.found = [] := by
      rw [List.eq_nil_iff_forall_not_mem]
      intro shop hshop
      exact slices_disjoint hab (id_of_found hshop) (id_of_found (heq ▸ hshop))
    exact ⟨hnil, heq ▸ hnil⟩
  · rintro ⟨ha, hb⟩
    rw [ha, hb]

theorem slices_flatMap (near : Nearby Double) (pages : ℕ) :
    (List.range pages).flatMap (fun i => near.slice (10 * i)) = near.shops.take (10 * pages) := by
  induction pages with
  | zero => rfl
  | succ pages ih =>
    rw [List.range_succ, List.flatMap_append, ih, List.flatMap_singleton, Nearby.slice,
      Nat.mul_succ, List.take_add]

end Slices

/-- When a page shows its ten positions: up to page 214748364; on a later one only when its number,
multiplied in 32 bits, names another ten positions, and MySQL has no shop at either. -/
def PageCondition (near : Nearby Double) (t : ShopTable Double Columns) (current : Int32) : Prop :=
  10 * current.toInt < 2147483648 ∨
    InBounds current ∧ Missing near t (aliasStart current) ∧
      Missing near t (10 * (current.toInt - 1)).toNat

theorem queryShopByType_exact_iff (w : GeoWorld Double Columns) (typeId : Int32) (x y : Double)
    (current : Int32) (h : 1 ≤ current.toInt) :
    (w.queryShopByType typeId current (some x) (some y) = .ok (w.exactPage typeId x y current) ↔
      PageCondition (w.geo typeId x y) w.tbShop current) ∧
    ∀ pages, (List.range pages).flatMap (fun i => (w.geo typeId x y).slice (10 * i)) =
      (w.geo typeId x y).shops.take (10 * pages) := by
  refine ⟨?_, slices_flatMap _⟩
  by_cases hin : InBounds current
  · rw [queryShopByType_inBounds w typeId x y h hin, Except.ok.injEq, GeoWorld.exactPage]
    by_cases hsmall : 10 * current.toInt < 2147483648
    · have hstart : aliasStart current = (10 * (current.toInt - 1)).toNat := by
        rw [aliasStart, wrapped_of_small h hsmall]
        omega
      rw [hstart]
      exact iff_of_true rfl (.inl hsmall)
    · have hlater : aliasStart current + 10 ≤ (10 * (current.toInt - 1)).toNat := by
        have hfar := wrapped_of_large (not_lt.mp hsmall) hin
        have hten := hin.1
        rw [aliasStart]
        omega
      rw [found_eq_iff hlater, PageCondition]
      simp [hsmall, hin]
  · obtain ⟨e, he⟩ := queryShopByType_outOfBounds w typeId x y h hin
    rw [he]
    refine iff_of_false nofun ?_
    rintro (hsmall | ⟨hin', -⟩)
    · have hproduct := wrapped_of_small h hsmall
      exact hin ⟨by omega, by omega⟩
    · exact hin hin'

end Query

def EveryPageExact : Prop :=
  ∀ (Double Columns : Type) (w : GeoWorld Double Columns) (typeId : Int32) (x y : Double)
    (current : Int32), 1 ≤ current.toInt →
      w.queryShopByType typeId current (some x) (some y) = .ok (w.exactPage typeId x y current)

def sevenShops : Nearby ℤ where
  shops := [(1, 100), (2, 200), (3, 300), (4, 400), (5, 500), (6, 600), (7, 700)]
  nodup := by decide
  long := by simp [IsLong]

def sampleGeo : GeoWorld ℤ String where
  geo _ _ _ := sevenShops
  tbShop :=
    { row := fun id => if id ∈ sevenShops.shops.map Prod.fst then some ⟨id, "shop", none⟩ else none
      id_row := by
        intro id shop h
        rw [Option.ite_none_right_eq_some] at h
        cases h.2
        rfl }
  page _ _ := []

-- Page 429496731 begins at position 4.
example : (sampleGeo.queryShopByType 1 429496731 (some 0) (some 0)).map (List.map Shop.id) =
    .ok [5, 6, 7] := by decide +kernel

theorem queryShopByType_exact_iff_firstPage :
    sampleGeo.queryShopByType 1 1 (some 0) (some 0) = .ok (sampleGeo.exactPage 1 0 0 1) :=
  (queryShopByType_exact_iff sampleGeo 1 0 0 1 (by decide)).1.mpr (.inl (by decide))

/-- At page 214748365 the limit is negative. -/
theorem everyPageExact_fails : ¬ EveryPageExact := by
  intro h
  have hpage := h ℤ String sampleGeo 1 0 0 214748365 (by decide)
  have herror : (sampleGeo.queryShopByType 1 214748365 (some 0) (some 0)).isOk = false := by
    decide +kernel
  rw [hpage] at herror
  cases herror

end HmDianPing.Geo
