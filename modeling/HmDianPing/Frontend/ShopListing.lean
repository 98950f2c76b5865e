import HmDianPing.Frontend.ShopPages
import HmDianPing.Geo.Discovery

/-! # Nearby shops, and shops by type or by name

`map.html` and `shop-list.html` against the controllers that answer them. What such a
page shows is the beginning of the ranking it asks for, and all of it once it says that
there is no more, however its requests overlap.
-/
namespace HmDianPing.Frontend
open Interleaving Ranking Geo Text

def nearbyPage (within : NearbyParams → Shop ℚ ShopColumns → Option ℚ) :
    Service ShopRows NearbyParams (Shop ℚ ShopColumns) := fun t params current =>
  t.nearby within params current

/-- What the controllers of `shop-list.html` read: MySQL, and the index of Redis by type. -/
structure ShopServer where
  rows : ShopRows
  geo : Int32 → ℚ → ℚ → Nearby ℚ
  page : Int32 → Int32 → List (Shop ℚ ShopColumns)

def ShopServer.tbShop (server : ShopServer) : ShopTable ℚ ShopColumns where
  row id := server.rows.rows.find? (·.id = id)
  id_row id shop h := by simpa using List.find?_some h

def ShopServer.world (server : ShopServer) : GeoWorld ℚ ShopColumns :=
  ⟨server.geo, server.tbShop, server.page⟩

structure ListParams where
  keyword : Str
  typeId : String
  sortBy : String

def fixedX : ℚ := 120149993 / 1000000

def fixedY : ℚ := 30334229 / 1000000

section ShopList
variable (search : Search) (integer : String → Option Int32)

/-- `shop-list.html`; `integer` is what Spring reads as an `Integer`. -/
def shopList : Service ShopServer ListParams (Shop ℚ ShopColumns) := fun server params current =>
  if params.keyword ≠ [] then
    server.rows.queryShopByName search (some params.keyword) current params.sortBy
  else if params.typeId ≠ "" then
    match integer params.typeId with
    | none => .error "服务器异常"
    | some typeId =>
      if current ≤ 2147483647 then
        (server.world.queryShopByType typeId (Int32.ofNat current) (some fixedX) (some fixedY)).mapError
          fun _ => "服务器异常"
      else .error "服务器异常"
  else server.rows.queryShopByName search none current ""

/-- What `shop-list.html` asks for, without its pages. -/
def ShopServer.listing (server : ShopServer) (params : ListParams) : List (Shop ℚ ShopColumns) :=
  if params.keyword ≠ [] then server.rows.namedRows search (some params.keyword) params.sortBy
  else if params.typeId ≠ "" then
    match integer params.typeId with
    | none => []
    | some typeId => (server.geo typeId fixedX fixedY).shops.filterMap server.tbShop.found
  else server.rows.namedRows search none ""

/-- Where a type is looked for, the index is of shops of MySQL, and a limit counts them all. -/
def ShopServer.Indexed (server : ShopServer) (params : ListParams) : Prop :=
  params.keyword = [] → params.typeId ≠ "" → ∀ typeId, integer params.typeId = some typeId →
    (∀ shop ∈ (server.geo typeId fixedX fixedY).shops, (server.tbShop.row shop.1).isSome) ∧
      (server.geo typeId fixedX fixedY).shops.length < 2147483638

end ShopList

section Pages

variable {search : Search} {integer : String → Option Int32} {server : ShopServer}
  {params : ListParams} {current : ℕ} {rows : List (Shop ℚ ShopColumns)}

theorem queryShopByType_page {typeId : Int32} (h : 1 ≤ current)
    (hindexed : ∀ shop ∈ (server.geo typeId fixedX fixedY).shops, (server.tbShop.row shop.1).isSome)
    (hlimit : 10 * current < 2147483648)
    (hok : server.world.queryShopByType typeId (Int32.ofNat current) (some fixedX) (some fixedY) =
      .ok rows) :
    rows = page 10 (current - 1)
      ((server.geo typeId fixedX fixedY).shops.filterMap server.tbShop.found) := by
  have hint : (Int32.ofNat current).toInt = current := Int32.toInt_ofNat_of_lt (by omega)
  have hone : 1 ≤ (Int32.ofNat current).toInt := by omega
  have hwrapped : wrapped (Int32.ofNat current) = 10 * current := by
    rw [wrapped_of_small hone (by omega), hint]
  have hin : InBounds (Int32.ofNat current) := by
    rw [InBounds, hwrapped]
    omega
  have hstart : aliasStart (Int32.ofNat current) = 10 * (current - 1) := by
    rw [aliasStart, hwrapped]
    omega
  have hfound : ∀ shop ∈ (server.geo typeId fixedX fixedY).shops,
      (server.tbShop.found shop).isSome := by
    intro shop hshop
    simpa [ShopTable.found] using hindexed shop hshop
  rw [queryShopByType_inBounds server.world typeId fixedX fixedY hone hin, hstart] at hok
  obtain rfl := Except.ok.inj hok
  exact page_filterMap hfound 10 (current - 1)

theorem shopList_page (hindexed : server.Indexed integer params) (h : 1 ≤ current)
    (hlength : 10 * (current - 1) ≤ (server.listing search integer params).length)
    (hok : shopList search integer server params current = .ok rows) :
    rows = page 10 (current - 1) (server.listing search integer params) := by
  unfold shopList at hok
  unfold ShopServer.listing at hlength ⊢
  by_cases hkeyword : params.keyword = []
  · rw [if_neg (not_not.mpr hkeyword)] at hok hlength ⊢
    by_cases htype : params.typeId = ""
    · rw [if_neg (not_not.mpr htype)] at hok ⊢
      exact queryShopByName_page h hok
    · rw [if_pos htype] at hok hlength ⊢
      cases hinteger : integer params.typeId with
      | none =>
        rw [hinteger] at hok
        cases hok
      | some typeId =>
        obtain ⟨hrows, hlimit⟩ := hindexed hkeyword htype typeId hinteger
        simp only [hinteger] at hok hlength ⊢
        have hle := List.length_filterMap_le server.tbShop.found
          (server.geo typeId fixedX fixedY).shops
        rw [if_pos (by omega)] at hok
        have hanswer : server.world.queryShopByType typeId (Int32.ofNat current) (some fixedX)
            (some fixedY) = .ok rows := by
          cases hquery : server.world.queryShopByType typeId (Int32.ofNat current) (some fixedX)
              (some fixedY) with
          | ok shops =>
            rw [hquery] at hok
            cases hok
            rfl
          | error e =>
            rw [hquery] at hok
            cases hok
        exact queryShopByType_page h hrows (by omega) hanswer
  · rw [if_pos hkeyword] at hok ⊢
    exact queryShopByName_page h hok

end Pages

/-- `shop-list.html` shows the beginning of what it asks for, all of it once it says that there is no
more, and is loading exactly while the next page is asked for. -/
theorem shopList_shows (search : Search) (integer : String → Option Int32) (server : ShopServer)
    (params : ListParams) (c : PagePool ShopServer ListParams (Shop ℚ ShopColumns))
    (hrun : (shopPages (shopList search integer)).Run (AnswersStay (shopList search integer))
      (opened server params) c) (hindexed : c.shared.server.Indexed integer c.shared.page.params) :
    c.shared.page.shops = (c.shared.server.listing search integer c.shared.page.params).take
        (10 * (c.shared.page.current - 1)) ∧
      (c.shared.page.hasMore = false →
        c.shared.page.shops = c.shared.server.listing search integer c.shared.page.params) ∧
      (c.shared.page.loading = true ↔ ∃ t ∈ c.threads, InProgress c.shared.page t) := by
  have hstep := InStep.of_run hrun
  obtain ⟨hshops, hcomplete⟩ := hstep.loaded.eq_take fun i rows hi hlength hok =>
    shopList_page hindexed hi hlength hok
  exact ⟨hshops, hcomplete, hstep.loading⟩

/-- Twelve shops, a hundred metres apart, every second of them of type 2. -/
def twelveShops : ShopRows where
  rows := (List.range 12).map fun i => ⟨i + 1, ⟨i % 2 + 1, lit "shop", none, [], 0, 0⟩, none⟩
  nodup := by decide

def indexedShops : ShopServer where
  rows := twelveShops
  geo _ _ _ := ⟨[(4, 50), (2, 200), (6, 600)], by decide, by simp [IsLong]⟩
  page _ _ := []

def noSearch : Search := ⟨id, fun _ _ => false⟩

def oneDigit (s : String) : Option Int32 := if s = "2" then some 2 else none

def scrolled : List (Move Delivery (PageAction ShopServer ListParams)) :=
  .act .more :: List.replicate 3 (.run 0 .answered) ++ [.act .more]

theorem shopList_shows_scrolled : ∃ c, (shopPages (shopList noSearch oneDigit)).play
    (fun _ => userMove) (opened indexedShops ⟨[], "2", ""⟩) scrolled = some c ∧
    c.shared.page.shops.map Shop.id = [4, 2, 6] ∧
    c.shared.page.shops = c.shared.server.listing noSearch oneDigit c.shared.page.params := by
  have hplay : ((shopPages (shopList noSearch oneDigit)).play (fun _ => userMove)
      (opened indexedShops ⟨[], "2", ""⟩) scrolled).map (fun c => decide
        (c.shared.page.params.typeId = "2" ∧ c.shared.page.hasMore = false ∧
          c.shared.page.shops.map Shop.id = [4, 2, 6] ∧
          (∀ shop ∈ (c.shared.server.geo 2 fixedX fixedY).shops,
            (c.shared.server.tbShop.row shop.1).isSome) ∧
          (c.shared.server.geo 2 fixedX fixedY).shops.length = 3)) = some true := by decide +kernel
  obtain ⟨c, hc, hend⟩ := Option.map_eq_some_iff.mp hplay
  obtain ⟨htype, hlast, hids, hrows, hlength⟩ := of_decide_eq_true hend
  refine ⟨c, hc, hids, (shopList_shows noSearch oneDigit indexedShops _ c
    (Machine.run_of_play answersStay_of_userMove hc) ?_).2.1 hlast⟩
  intro _ _ typeId hinteger
  rw [htype] at hinteger
  obtain rfl : (2 : Int32) = typeId := Option.some.inj hinteger
  exact ⟨hrows, by omega⟩

/-- `map.html` shows the nearest shops of those in range, none of them twice, and all of them once it
says that there are no more. -/
theorem map_shows_nearest (within : NearbyParams → Shop ℚ ShopColumns → Option ℚ) (t : ShopRows)
    (params : NearbyParams) (c : PagePool ShopRows NearbyParams (Shop ℚ ShopColumns))
    (hrun : (shopPages (nearbyPage within)).Run (AnswersStay (nearbyPage within))
      (opened t params) c) :
    Leads nearestFirst (c.shared.server.inRange within c.shared.page.params) c.shared.page.shops ∧
      (c.shared.page.hasMore = true →
        c.shared.page.shops.length = 10 * (c.shared.page.current - 1)) ∧
      (c.shared.page.hasMore = false →
        c.shared.server.inRange within c.shared.page.params ⊆ c.shared.page.shops) ∧
      (c.shared.page.loading = true ↔ ∃ t ∈ c.threads, InProgress c.shared.page t) := by
  have hstep := InStep.of_run hrun
  obtain ⟨hshops, hcomplete⟩ := hstep.loaded.eq_take
    (l := c.shared.server.nearbyRows within c.shared.page.params) fun i rows hi _ hok =>
      (nearby_page hi hok).2
  refine ⟨?_, hstep.loaded.length_eq, fun hlast shop hshop => ?_, hstep.loading⟩
  · rw [hshops]
    exact leads_take nearestFirst (nodup_inRange _ within _) _
  · rw [hcomplete hlast]
    exact (ranked_perm _).mem_iff.mpr hshop

def byId (_ : NearbyParams) (shop : Shop ℚ ShopColumns) : Option ℚ := some (100 * shop.id)

def centre : NearbyParams := ⟨some fixedX, some fixedY, some 5, none⟩

/-- The shops of type 2 arrive after all shops are asked for, and are too late. -/
def lateReply : List (Move Delivery (PageAction ShopRows NearbyParams)) :=
  .run 0 .answered :: .act (.reset centre) :: List.replicate 3 (.run 1 .answered) ++ .act .more ::
    List.replicate 2 (.run 0 .answered) ++ List.replicate 3 (.run 2 .answered)

theorem map_shows_nearest_lateReply : ∃ c, (shopPages (nearbyPage byId)).play
    (fun _ => userMove) (opened twelveShops { centre with typeId := some 2 }) lateReply =
      some c ∧ c.shared.page.shops.map Shop.id = [1, 2, 3, 4, 5, 6, 7, 8, 9, 10, 11, 12] ∧
    Leads nearestFirst (c.shared.server.inRange byId c.shared.page.params) c.shared.page.shops := by
  have hplay : ((shopPages (nearbyPage byId)).play (fun _ => userMove)
      (opened twelveShops { centre with typeId := some 2 }) lateReply).map
        (fun c => c.shared.page.shops.map Shop.id) = some [1, 2, 3, 4, 5, 6, 7, 8, 9, 10, 11, 12] := by
    decide +kernel
  obtain ⟨c, hc, hids⟩ := Option.map_eq_some_iff.mp hplay
  exact ⟨c, hc, hids, (map_shows_nearest byId twelveShops _ c
    (Machine.run_of_play answersStay_of_userMove hc)).1⟩

end HmDianPing.Frontend
