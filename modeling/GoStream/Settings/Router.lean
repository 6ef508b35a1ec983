import GoStream.Engines.Names
import GoStream.Foundations.SliceSort
import GoStream.Torrshash.Tokens

/-!
# Routing of paths to databases
-/

namespace GoStream.Settings

open Foundations Torrshash Engines

structure XPathDBRouter (δ : Type) where
  dbs : List δ
  routes : List Bytes
  route2db : Bytes → Option δ

namespace XPathDBRouter

variable {δ : Type} (S : SliceSort) (T : Trimming) (L : Lowering)

def new : XPathDBRouter δ := ⟨[], [], fun _ => none⟩

def xPathToRoute (xPath : Bytes) : Bytes := L.lower (T.trim xPath)

def longer (a b : Bytes) : Bool := decide (b.length < a.length)

section Registration

variable [DecidableEq δ]

def addRoute (v : XPathDBRouter δ) (db : δ) (route : Bytes) : XPathDBRouter δ where
  dbs := if v.dbs.contains db then v.dbs else v.dbs ++ [db]
  routes := S.sort longer (v.routes ++ [route])
  route2db := Function.update v.route2db route (some db)

def registerDefault (v : XPathDBRouter δ) (db : δ) : XPathDBRouter δ :=
  if v.routes.contains (xPathToRoute T L []) then v else v.addRoute S db (xPathToRoute T L [])

def registerRoute (v : XPathDBRouter δ) (db : δ) (xPath : Bytes) : XPathDBRouter δ × Bool :=
  let newRoute := xPathToRoute T L xPath
  if v.routes.contains newRoute then (v, false)
  else
    let v := if v.dbs.isEmpty && !newRoute.isEmpty then v.registerDefault S T L db else v
    (v.addRoute S db newRoute, true)

def getDBForXPath (v : XPathDBRouter δ) (xPath : Bytes) : Option δ :=
  if v.dbs.isEmpty then none
  else (v.routes.find? fun route => route.isPrefixOf (xPathToRoute T L xPath)).bind v.route2db

def registerAll (v : XPathDBRouter δ) (calls : List (δ × Bytes)) : XPathDBRouter δ :=
  calls.foldl (fun v call => (v.registerRoute S T L call.1 call.2).1) v

end Registration

def asked : List (δ × Bytes) → List (Bytes × δ)
  | [] => []
  | (db, xPath) :: rest =>
    (if xPathToRoute T L xPath = [] then [] else [([], db)]) ++
      ((db, xPath) :: rest).map fun call => (xPathToRoute T L call.2, call.1)

def owner (table : List (Bytes × δ)) (route : Bytes) : Option δ :=
  (table.find? fun e => e.1 = route).map Prod.snd

structure Holds (v : XPathDBRouter δ) (table : List (Bytes × δ)) : Prop where
  mem_routes : ∀ route, route ∈ v.routes ↔ ∃ e ∈ table, e.1 = route
  sorted : v.routes.Pairwise fun a b => b.length ≤ a.length
  route2db : v.route2db = owner table
  dbs : v.dbs = [] ↔ table = []

variable {v : XPathDBRouter δ} {table : List (Bytes × δ)} {db : δ} {route : Bytes}

theorem holds_new : Holds (new : XPathDBRouter δ) [] :=
  ⟨by simp [new], .nil, rfl, by simp [new]⟩

theorem ordersOn_longer (l : List Bytes) : OrdersOn longer l := by
  constructor
  · simp [longer]
  · intro a _ b _ c _ hab hbc
    simp only [longer, decide_eq_true_eq] at *
    omega
  · intro a _ b _ c _ hab hbc
    simp only [longer, decide_eq_false_iff_not] at *
    omega

theorem owner_append (e : Bytes × δ) (r : Bytes) :
    owner (table ++ [e]) r = if r = e.1 then (owner table r).or (some e.2) else owner table r := by
  rw [owner, List.find?_append, owner]
  split_ifs with hr
  · subst hr
    cases table.find? fun e' => e'.1 = e.1 <;> simp
  · cases table.find? fun e' => e'.1 = r <;> simp [Ne.symm hr]

theorem isSome_owner_iff : (owner table route).isSome = true ↔ ∃ e ∈ table, e.1 = route := by
  rw [owner, Option.isSome_map, List.find?_isSome]
  simp

theorem holds_duplicate (h : Holds v table) (hdup : route ∈ v.routes) :
    Holds v (table ++ [(route, db)]) where
  mem_routes r := by
    rw [h.mem_routes] at hdup
    simp only [h.mem_routes, List.mem_append, List.mem_singleton, or_and_right, exists_or,
      exists_eq_left]
    exact ⟨.inl, fun hr => hr.elim id fun heq => heq ▸ hdup⟩
  sorted := h.sorted
  route2db := by
    funext r
    rw [h.route2db, owner_append]
    split_ifs with hr
    · obtain ⟨db', hdb⟩ := Option.isSome_iff_exists.mp
        (isSome_owner_iff.mpr ((h.mem_routes route).mp hdup))
      rw [show r = route from hr, hdb, Option.some_or]
    · rfl
  dbs := by
    obtain ⟨e, he, -⟩ := (h.mem_routes route).mp hdup
    have hne : table ≠ [] := List.ne_nil_of_mem he
    simp [h.dbs, hne]

theorem getDBForXPath_of_holds (h : Holds v table) {e : Bytes × δ} (he : e ∈ table)
    (hdefault : e.1 = []) (xPath : Bytes) :
    ∃ route db, v.getDBForXPath T L xPath = some db ∧ owner table route = some db ∧
      route <+: xPathToRoute T L xPath ∧
      ∀ e ∈ table, e.1 <+: xPathToRoute T L xPath → e.1.length ≤ route.length := by
  have hdbs : v.dbs.isEmpty = false := by
    rw [List.isEmpty_eq_false_iff]
    exact fun hnil => List.ne_nil_of_mem he (h.dbs.mp hnil)
  cases hfind : v.routes.find? fun route => route.isPrefixOf (xPathToRoute T L xPath) with
  | none =>
    -- the default route is a prefix of every path
    have hnot := List.find?_eq_none.mp hfind [] ((h.mem_routes []).mpr ⟨e, he, hdefault⟩)
    simp at hnot
  | some route =>
    obtain ⟨hbegins, before, after, hsplit, hbefore⟩ := List.find?_eq_some_iff_append.mp hfind
    have hmem : route ∈ v.routes := by simp [hsplit]
    obtain ⟨db, hdb⟩ := Option.isSome_iff_exists.mp
      (isSome_owner_iff.mpr ((h.mem_routes route).mp hmem))
    refine ⟨route, db, ?_, hdb, List.isPrefixOf_iff_prefix.mp hbegins, fun e' he' hbegins' => ?_⟩
    · simp [getDBForXPath, hdbs, hfind, h.route2db, hdb]
    · -- a longer route stands before the one that was found, and was passed over
      have hin := (h.mem_routes e'.1).mpr ⟨e', he', rfl⟩
      rw [hsplit, List.mem_append] at hin
      rcases hin with hin | hin
      · have hpassed := hbefore e'.1 hin
        rw [List.isPrefixOf_iff_prefix.mpr hbegins'] at hpassed
        cases hpassed
      · have hsorted := h.sorted
        rw [hsplit, List.pairwise_append, List.pairwise_cons] at hsorted
        rcases List.mem_cons.mp hin with heq | hin
        · rw [heq]
        · exact hsorted.2.1.1 _ hin

section Calls

variable [DecidableEq δ]

theorem holds_addRoute (h : Holds v table) (hnew : route ∉ v.routes) :
    Holds (v.addRoute S db route) (table ++ [(route, db)]) where
  mem_routes r := by
    rw [addRoute, S.mem_sort, List.mem_append, h.mem_routes]
    simp [or_and_right, exists_or, eq_comm]
  sorted := by
    refine (S.ascending longer _ (ordersOn_longer _)).imp fun {a b} hab => ?_
    simpa [longer] using hab
  route2db := by
    funext r
    change Function.update v.route2db route (some db) r = _
    rw [owner_append, ← h.route2db]
    by_cases hr : r = route
    · -- nobody owns the route before
      have hnone : v.route2db route = none := by
        rw [h.route2db, ← Option.not_isSome_iff_eq_none, isSome_owner_iff, ← h.mem_routes]
        exact hnew
      rw [hr, Function.update_self, if_pos rfl, hnone, Option.none_or]
    · rw [Function.update_of_ne hr, if_neg hr]
  dbs := by
    rw [addRoute]
    split_ifs with hdb
    · have hne : v.dbs ≠ [] := List.ne_nil_of_mem (List.contains_iff_mem.mp hdb)
      simp [hne]
    · simp

theorem xPathToRoute_nil : xPathToRoute T L [] = [] := by
  rw [xPathToRoute, T.trim_plain [] rfl, L.lower_nil]

theorem holds_registerRoute (h : Holds v table) (hne : table ≠ []) (db : δ) (xPath : Bytes) :
    Holds (v.registerRoute S T L db xPath).1 (table ++ [(xPathToRoute T L xPath, db)]) := by
  have hdbs : v.dbs.isEmpty = false := by
    rw [List.isEmpty_eq_false_iff]
    exact fun hnil => hne (h.dbs.mp hnil)
  simp only [registerRoute, hdbs, Bool.false_and, Bool.false_eq_true, if_false]
  split_ifs with hdup
  · exact holds_duplicate h (List.contains_iff_mem.mp hdup)
  · exact holds_addRoute S h fun hmem => hdup (List.contains_iff_mem.mpr hmem)

theorem holds_first (db : δ) (xPath : Bytes) :
    Holds ((new : XPathDBRouter δ).registerRoute S T L db xPath).1 (asked T L [(db, xPath)]) := by
  have hempty : (new : XPathDBRouter δ).routes = [] := rfl
  have hdefault : (new : XPathDBRouter δ).registerDefault S T L db = new.addRoute S db [] := by
    rw [registerDefault, xPathToRoute_nil, hempty]
    rfl
  simp only [registerRoute, hempty, asked, List.map_cons, List.map_nil]
  by_cases hroute : xPathToRoute T L xPath = []
  · simpa [hroute] using holds_addRoute S holds_new (by simp [hempty])
  · have hold : Holds ((new : XPathDBRouter δ).addRoute S db []) ([] ++ [([], db)]) :=
      holds_addRoute S holds_new (by simp [hempty])
    have hnew : xPathToRoute T L xPath ∉ ((new : XPathDBRouter δ).addRoute S db []).routes := by
      rw [hold.mem_routes]
      simpa using Ne.symm hroute
    have hboth : Holds _ ([] ++ [([], db)] ++ [(xPathToRoute T L xPath, db)]) :=
      holds_addRoute S hold hnew
    simpa [hroute, hdefault, show (new : XPathDBRouter δ).dbs = [] from rfl] using hboth

theorem holds_registerAll (h : Holds v table) (hne : table ≠ []) (calls : List (δ × Bytes)) :
    Holds (v.registerAll S T L calls)
      (table ++ calls.map fun call => (xPathToRoute T L call.2, call.1)) := by
  induction calls generalizing v table with
  | nil => simpa [registerAll] using h
  | cons call calls ih =>
    have hrest := ih (holds_registerRoute S T L h hne call.1 call.2) (by simp)
    rwa [List.append_assoc] at hrest

theorem holds_asked (first : δ × Bytes) (rest : List (δ × Bytes)) :
    Holds (registerAll S T L new (first :: rest)) (asked T L (first :: rest)) := by
  have hne : asked T L [first] ≠ [] := by simp [asked]
  have hall := holds_registerAll S T L (holds_first S T L first.1 first.2) hne rest
  simpa [asked, registerAll, List.append_assoc] using hall

/-- Every path has the owner of its longest route. -/
theorem longest_route (first : δ × Bytes) (rest : List (δ × Bytes)) :
    (∀ xPath, ∃ route db,
      (registerAll S T L new (first :: rest)).getDBForXPath T L xPath = some db ∧
      owner (asked T L (first :: rest)) route = some db ∧ route <+: xPathToRoute T L xPath ∧
      ∀ e ∈ asked T L (first :: rest), e.1 <+: xPathToRoute T L xPath →
        e.1.length ≤ route.length) ∧
      ∀ (db : δ) (xPath : Bytes),
        xPathToRoute T L xPath ∈ (registerAll S T L new (first :: rest)).routes →
          (registerAll S T L new (first :: rest)).registerRoute S T L db xPath =
            (registerAll S T L new (first :: rest), false) := by
  constructor
  · intro xPath
    obtain ⟨e, he, hdefault⟩ : ∃ e ∈ asked T L (first :: rest), e.1 = [] := by
      rw [asked]
      by_cases hroute : xPathToRoute T L first.2 = []
      · exact ⟨([], first.1), by simp [hroute], rfl⟩
      · exact ⟨([], first.1), by simp [hroute], rfl⟩
    exact getDBForXPath_of_holds T L (holds_asked S T L first rest) he hdefault xPath
  · intro db xPath hdup
    exact if_pos (List.contains_iff_mem.mpr hdup)

end Calls

end XPathDBRouter

end GoStream.Settings
