import HmDianPing.Geo.ShopPaging
import HmDianPing.Ranking.Pages
import HmDianPing.Ranking.Top
import Mathlib.Data.Prod.Lex
import Mathlib.Algebra.Order.Ring.Rat

/-! # Shops near a position, and shops by name

`NearbyShopController.nearby` and `ShopController.queryShopByName` answer with a page of
a ranking. Both rankings end with the id, so that no two shops share a place.
-/
namespace HmDianPing.Geo
open Text Ranking

structure ShopColumns where
  typeId : Long
  name : Str
  area : Option Str
  address : Str
  score : ℕ
  comments : ℕ
deriving DecidableEq

structure ShopRows where
  rows : List (Shop ℚ ShopColumns)
  nodup : (rows.map Shop.id).Nodup

/-- A `Double` from outside; none when it is not finite. -/
abbrev Double := Option ℚ

/-- What `Result.fail` and `WebExceptionAdvice` make of a request; the page shows the text. -/
abbrev Answer := Except String (List (Shop ℚ ShopColumns))

def currentParam (current : ℕ) : Except String ℤ :=
  if current ≤ 2147483647 then .ok current else .error "服务器异常"

section Nearby

structure NearbyParams where
  x : Double
  y : Double
  radiusKm : Double
  typeId : Option Long

def validPosition (x y : Double) : Bool :=
  x.any (fun x => -180 ≤ x ∧ x ≤ 180) && y.any fun y => -90 ≤ y ∧ y ≤ 90

def validRadius (radiusKm : Double) : Bool :=
  radiusKm.any fun radiusKm => ¬ radiusKm < 1 / 10 ∧ ¬ 20 < radiusKm

/-- The `WHERE` of `DiscoveryMapper.nearby`, where no time to begin at is given; `within` is the
distance of a shop with a position, when it is at most the radius. -/
def ShopRows.inRange (within : NearbyParams → Shop ℚ ShopColumns → Option ℚ) (t : ShopRows)
    (params : NearbyParams) : List (Shop ℚ ShopColumns) :=
  t.rows.filterMap fun shop =>
    if params.typeId.all (shop.columns.typeId = ·) then
      (within params shop).map fun distance => { shop with distance := some distance }
    else none

def nearestFirst (shop : Shop ℚ ShopColumns) : ℚ ×ₗ Long := toLex (shop.distance.getD 0, shop.id)

/-- `DiscoveryMapper.nearby` without its `LIMIT`. -/
def ShopRows.nearbyRows (within : NearbyParams → Shop ℚ ShopColumns → Option ℚ) (t : ShopRows)
    (params : NearbyParams) : List (Shop ℚ ShopColumns) :=
  ranked nearestFirst (t.inRange within params)

def ShopRows.nearby (within : NearbyParams → Shop ℚ ShopColumns → Option ℚ) (t : ShopRows)
    (params : NearbyParams) (current : ℕ) : Answer := do
  let current ← currentParam current
  if validPosition params.x params.y = false then
    throw "经纬度无效"
  if validRadius params.radiusKm = false then
    throw "查询范围须为0.1至20公里"
  if current < 1 ∨ 1000 < current ∨ params.typeId.any (· < 1) then
    throw "分页或分类参数无效"
  return ((t.nearbyRows within params).drop ((current - 1) * 10).toNat).take 10

end Nearby

section Search

/-- What `StrUtil.trim` and the `LIKE` of MySQL make of a keyword. -/
structure Search where
  trim : Str → Str
  like : Str → Str → Bool

variable (search : Search)

/-- The `WHERE` of `queryShopByName`; a keyword that is blank restricts nothing. -/
def ShopRows.named (t : ShopRows) (name : Option Str) : List (Shop ℚ ShopColumns) :=
  t.rows.filter fun shop => match name.map search.trim with
    | none => true
    | some keyword => keyword = [] ∨ search.like keyword shop.columns.name ∨
        shop.columns.area.any (search.like keyword) ∨ search.like keyword shop.columns.address

/-- `ORDER BY score DESC, id ASC`, or by `comments`, or by the id alone. -/
def sortedBy (sortBy : String) (shop : Shop ℚ ShopColumns) : ℕᵒᵈ ×ₗ Long :=
  toLex (OrderDual.toDual (if sortBy = "score" then shop.columns.score
    else if sortBy = "comments" then shop.columns.comments else 0), shop.id)

def ShopRows.namedRows (t : ShopRows) (name : Option Str) (sortBy : String) :
    List (Shop ℚ ShopColumns) := ranked (sortedBy sortBy) (t.named search name)

def ShopRows.queryShopByName (t : ShopRows) (name : Option Str) (current : ℕ) (sortBy : String) :
    Answer := do
  let current ← currentParam current
  if current < 1 then
    throw "页码必须大于0"
  if (name.map search.trim).any (100 < ·.length) then
    throw "搜索关键词不能超过100个字符"
  return ((t.namedRows search name sortBy).drop ((current - 1) * 10).toNat).take 10

end Search

theorem nodup_inRange (t : ShopRows) (within : NearbyParams → Shop ℚ ShopColumns → Option ℚ)
    (params : NearbyParams) : (t.inRange within params).Nodup := by
  refine List.pairwise_filterMap.mpr ((List.pairwise_map.mp t.nodup).imp ?_)
  intro row row' hne shop hshop shop' hshop' heq
  rw [Option.ite_none_right_eq_some] at hshop hshop'
  obtain ⟨d, -, rfl⟩ := Option.map_eq_some_iff.mp hshop.2
  obtain ⟨d', -, rfl⟩ := Option.map_eq_some_iff.mp hshop'.2
  exact hne (Shop.mk.inj heq).1

section Pages
variable {t : ShopRows} {current : ℕ} {rows : List (Shop ℚ ShopColumns)}

theorem page_eq (l : List (Shop ℚ ShopColumns)) (h : 1 ≤ current) :
    (l.drop (((current : ℤ) - 1) * 10).toNat).take 10 = page 10 (current - 1) l := by
  have hstart : (((current : ℤ) - 1) * 10).toNat = 10 * (current - 1) := by omega
  rw [hstart, page]

theorem of_currentParam {α : Type} {f : ℤ → Except String α} {a : α}
    (h : (currentParam current >>= f) = .ok a) : f current = .ok a := by
  unfold currentParam at h
  split at h
  · exact h
  · cases h

theorem of_check {α : Type} {b : Prop} [Decidable b] {e : String} {p : Except String α} {a : α}
    (h : (if b then throw e >>= fun (_ : Unit) => p else p) = .ok a) : ¬ b ∧ p = .ok a := by
  split at h
  · cases h
  · exact ⟨‹¬ b›, h⟩

/-- An answer of `nearby` is a page of the ranking, and one of the first thousand. -/
theorem nearby_page {within : NearbyParams → Shop ℚ ShopColumns → Option ℚ} {params : NearbyParams}
    (h : 1 ≤ current) (hok : t.nearby within params current = .ok rows) :
    current ≤ 1000 ∧ rows = page 10 (current - 1) (t.nearbyRows within params) := by
  obtain ⟨-, hok⟩ := of_check (of_currentParam hok)
  obtain ⟨-, hok⟩ := of_check hok
  obtain ⟨hparams, hok⟩ := of_check hok
  rw [← page_eq _ h]
  cases hok
  exact ⟨by omega, rfl⟩

theorem queryShopByName_page {search : Search} {name : Option Str} {sortBy : String} (h : 1 ≤ current)
    (hok : t.queryShopByName search name current sortBy = .ok rows) :
    rows = page 10 (current - 1) (t.namedRows search name sortBy) := by
  obtain ⟨-, hok⟩ := of_check (of_currentParam hok)
  obtain ⟨-, hok⟩ := of_check hok
  rw [← page_eq _ h]
  cases hok
  rfl

end Pages
end HmDianPing.Geo
