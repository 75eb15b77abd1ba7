import JsonShapes.Proofs.Outputs
import Mathlib.Logic.Relation
import Mathlib.Order.Bounds.Basic

/-!
# The names of a method entry

The search for a name starts with the base and goes on to the base with the numbers from two on, as
long as the name is in use. Names with different numbers differ, whatever else is in use, so the
search ends after at most as many rounds as there are names. The endpoints of a method entry get
their names in this way, one after the other. So a name depends on the paths before it alone, and
those after it never change it.
-/

namespace JsonShapes

namespace Naming

/-- The name that is tried with a number. The base itself goes with the number one. -/
def candidate (base : Text) (k : Nat) : Text := if k ≤ 1 then base else base ++ Text.ofNat k

/-- One round of the search: the name with a number is in use, so the next number is tried. -/
inductive Advances (used : List Text) (base : Text) : Nat → Nat → Prop
  | next {k : Nat} (taken : candidate base k ∈ used) : Advances used base k (k + 1)

/-- The search, which starts with the base itself, comes to an end with a name. It takes no more
rounds than there are names in use. -/
def SearchEnds (used : List Text) (base name : Text) : Prop :=
  ∃ k, k ≤ used.length + 1 ∧ Relation.ReflTransGen (Advances used base) 1 k ∧
    candidate base k ∉ used ∧ name = candidate base k

/-- The base if it is free, and else the base with the least number from two on that makes a free
name. -/
def IsFirstFree (used : List Text) (base name : Text) : Prop :=
  if base ∈ used then
    ∃ k, IsLeast {k | 2 ≤ k ∧ base ++ Text.ofNat k ∉ used} k ∧ name = base ++ Text.ofNat k
  else name = base

section

variable {base : Text} {k : Nat}

theorem candidate_one (base : Text) : candidate base 1 = base := rfl

theorem candidate_of_two_le (h : 2 ≤ k) : candidate base k = base ++ Text.ofNat k :=
  if_neg (by omega)

theorem candidates_eq (base : Text) (count : Nat) :
    base :: numbered base count = (List.range (count + 1)).map fun i => candidate base (i + 1) := by
  rw [List.range_succ_eq_map, List.map_cons, List.map_map, numbered, candidate_one]
  refine congrArg (base :: ·) (List.map_congr_left fun i _ => ?_)
  exact (candidate_of_two_le (by omega)).symm

/-- The fresh name is the first of the candidates that is not in use. -/
theorem exists_fresh_eq (used : List Text) (base : Text) :
    ∃ k, 1 ≤ k ∧ k ≤ used.length + 1 ∧ fresh used base = candidate base k ∧
      ∀ j, 1 ≤ j → j < k → candidate base j ∈ used := by
  have free := fresh_notMem used base
  unfold fresh at free ⊢
  rw [candidates_eq, List.find?_map] at free ⊢
  cases found : (List.range (used.length + 1)).find?
      ((fun name => decide (name ∉ used)) ∘ fun i => candidate base (i + 1)) with
  | none =>
      -- the base is one of the candidates, so that it is in use and not free
      rw [found] at free
      have taken := List.find?_eq_none.1 found 0 (List.mem_range.2 (Nat.succ_pos _))
      simp only [Function.comp_apply, decide_eq_true_eq, not_not] at taken
      exact absurd taken free
  | some i =>
      obtain ⟨-, inRange, before⟩ := List.find?_range_eq_some.1 found
      refine ⟨i + 1, by omega, List.mem_range.1 inRange, rfl, fun j positive smaller => ?_⟩
      have taken := before (j - 1) (by omega)
      rw [Function.comp_apply, Nat.sub_add_cancel positive] at taken
      simpa using taken

/-- The search goes on as long as the names are in use. -/
theorem reaches_of_taken {used : List Text} (positive : 1 ≤ k)
    (taken : ∀ j, 1 ≤ j → j < k → candidate base j ∈ used) :
    Relation.ReflTransGen (Advances used base) 1 k := by
  induction k, positive using Nat.le_induction with
  | base => exact .refl
  | succ k positive ih =>
      have reached := ih fun j hj less => taken j hj (by omega)
      exact reached.tail (.next (taken k positive (by omega)))

end

/-- The search ends with the fresh name. -/
theorem searchEnds_fresh (used : List Text) (base : Text) :
    SearchEnds used base (fresh used base) := by
  obtain ⟨k, positive, few, eq, taken⟩ := exists_fresh_eq used base
  refine ⟨k, few, reaches_of_taken positive taken, ?_, eq⟩
  rw [← eq]
  exact fresh_notMem used base

theorem isFirstFree_fresh (used : List Text) (base : Text) :
    IsFirstFree used base (fresh used base) := by
  have free := fresh_notMem used base
  obtain ⟨k, positive, -, eq, taken⟩ := exists_fresh_eq used base
  rw [eq] at free ⊢
  unfold IsFirstFree
  split
  · next listed =>
      have several : 2 ≤ k := by
        by_contra single
        obtain rfl : k = 1 := by omega
        exact free listed
      rw [candidate_of_two_le several] at free ⊢
      refine ⟨k, ⟨⟨several, free⟩, fun j ⟨hj, unused⟩ => ?_⟩, rfl⟩
      by_contra less
      have listed := taken j (by omega) (by omega)
      rw [candidate_of_two_le hj] at listed
      exact unused listed
  · next unlisted =>
      -- a number beyond the first would mean that the base is in use
      obtain rfl | more : k = 1 ∨ 1 < k := by omega
      · exact candidate_one base
      · exact absurd (taken 1 (by omega) more) unlisted

/-- The order in which names came into use does not matter. -/
theorem fresh_reverse (used : List Text) (base : Text) :
    fresh used.reverse base = fresh used base := by
  simp only [fresh, List.mem_reverse, List.length_reverse]

/-- The names for paths, one after the other, where some names are in use already. -/
def assign (used : List Text) : List Text → List Text
  | [] => []
  | path :: paths =>
    let name := fresh used (baseName path)
    name :: assign (name :: used) paths

theorem length_assign (used paths : List Text) : (assign used paths).length = paths.length := by
  induction paths generalizing used with
  | nil => rfl
  | cons path paths ih => simp [assign, ih]

/-- The names for later paths depend on those for earlier ones, and not the other way round. -/
theorem assign_append (used paths more : List Text) :
    assign used (paths ++ more) =
      assign used paths ++ assign ((assign used paths).reverse ++ used) more := by
  induction paths generalizing used with
  | nil => rfl
  | cons path paths ih => simp [assign, ih]

theorem nodup_assign (used paths : List Text) :
    (assign used paths).Nodup ∧ ∀ name ∈ assign used paths, name ∉ used := by
  induction paths generalizing used with
  | nil => simp [assign]
  | cons path paths ih =>
      obtain ⟨distinct, unused⟩ := ih (fresh used (baseName path) :: used)
      rw [assign, List.nodup_cons, List.forall_mem_cons]
      refine ⟨⟨fun listed => unused _ listed List.mem_cons_self, distinct⟩,
        fresh_notMem used _, fun name listed taken => ?_⟩
      exact unused name listed (List.mem_cons_of_mem _ taken)

end Naming

namespace Discovery

open Naming (SearchEnds IsFirstFree assign baseName fresh)

/-- The paths that have samples. -/
def sampledPaths (paths : List (Text × Json)) : List Text :=
  paths.filterMap fun entry =>
    match entry.2 with
    | .arr (_ :: _) => some entry.1
    | _ => none

/-- The endpoints are those of the given paths, with the names that these get. -/
structure Assigned (used paths : List Text) (endpoints : List Endpoint) : Prop where
  paths_eq : endpoints.map Endpoint.path = paths
  names_eq : endpoints.map Endpoint.typeName = assign used paths

theorem checks_assigned (method : Text) (used : List Text) {paths : List (Text × Json)}
    (decodable : ∀ entry ∈ paths, entry.2.Decodable) :
    Checks (paths.all fun entry => isSampleList entry.2) (Assigned used (sampledPaths paths))
      (methodEndpoints method used paths) := by
  induction paths generalizing used with
  | nil => exact .pure ⟨rfl, rfl⟩
  | cons entry paths ih =>
      obtain ⟨path, value⟩ := entry
      rw [List.forall_mem_cons] at decodable
      cases decodable.1 with
      | @arr samples decodableSamples =>
          rw [List.all_cons, isSampleList, Bool.true_and]
          cases samples with
          | nil =>
              -- a path without samples leaves the names in use as they are
              exact (checks_log ..).bind_of_true fun _ _ => ih used decodable.2
          | cons sample samples =>
              have inferred := checks_inferSamples (List.cons_ne_nil _ _) decodableSamples
              simp only [methodEndpoints]
              refine inferred.bind_of_true fun shape _ => ?_
              refine (checks_log ..).bind_of_true fun _ _ => ?_
              refine (ih _ decodable.2).bind_pure fun others assigned => ?_
              exact ⟨congrArg (path :: ·) assigned.paths_eq, congrArg (_ :: ·) assigned.names_eq⟩
      | _ =>
          simp only [methodEndpoints]
          exact .throw rfl

namespace Assigned

variable {paths more : List Text} {endpoints : List Endpoint}

/-- A name is the fresh one after those of the earlier endpoints. -/
theorem typeName_eq (h : Assigned [] paths endpoints) {earlier later : List Endpoint} {e : Endpoint}
    (split : endpoints = earlier ++ e :: later) :
    e.typeName = fresh (earlier.map Endpoint.typeName) (baseName e.path) := by
  have names : endpoints.map Endpoint.typeName = assign [] (endpoints.map Endpoint.path) :=
    h.names_eq.trans (congrArg (assign []) h.paths_eq.symm)
  rw [split, List.map_append, List.map_append, List.map_cons, List.map_cons,
    Naming.assign_append, assign, List.append_nil] at names
  have lengths : (earlier.map Endpoint.typeName).length =
      (assign [] (earlier.map Endpoint.path)).length := by
    rw [Naming.length_assign, List.length_map, List.length_map]
  obtain ⟨front, rest⟩ := List.append_inj names lengths
  rw [← Naming.fresh_reverse, front]
  exact (List.cons.inj rest).1

theorem nodup_names (h : Assigned [] paths endpoints) :
    (endpoints.map Endpoint.typeName).Nodup := by
  rw [h.names_eq]
  exact (Naming.nodup_assign [] paths).1

/-- More paths leave the names of those before them as they are. -/
theorem prefix_names (h : Assigned [] paths endpoints) {all : List Endpoint}
    (h' : Assigned [] (paths ++ more) all) :
    endpoints.map Endpoint.typeName <+: all.map Endpoint.typeName := by
  rw [h.names_eq, h'.names_eq, Naming.assign_append]
  exact List.prefix_append _ _

end Assigned

/-- The endpoints of a method entry are those of its paths that have samples, in order. For each of
them the search for a name ends, the name is the first free one after those of the earlier ones, no
two names are the same, and they stay what they are when more paths follow. -/
theorem methodEndpoints_assigns_first_free (method : Text) {paths : List (Text × Json)}
    (decodable : ∀ entry ∈ paths, entry.2.Decodable)
    (lists : ∀ entry ∈ paths, isSampleList entry.2 = true) (log : List LogEntry) :
    ∃ endpoints log', Returns (methodEndpoints method [] paths) log endpoints log' ∧
      endpoints.map Endpoint.path = sampledPaths paths ∧
      (∀ earlier e later, endpoints = earlier ++ e :: later →
        SearchEnds (earlier.map Endpoint.typeName) (baseName e.path) e.typeName ∧
          IsFirstFree (earlier.map Endpoint.typeName) (baseName e.path) e.typeName) ∧
      (endpoints.map Endpoint.typeName).Nodup ∧
      ∀ more, (∀ entry ∈ more, entry.2.Decodable) → ∀ all log'',
        Returns (methodEndpoints method [] (paths ++ more)) log all log'' →
          endpoints.map Endpoint.typeName <+: all.map Endpoint.typeName := by
  have checks := checks_assigned method [] decodable
  obtain ⟨endpoints, log', returns, assigned⟩ := checks.returns (List.all_eq_true.2 lists) log
  refine ⟨endpoints, log', returns, assigned.paths_eq, ?_, assigned.nodup_names, ?_⟩
  · intro earlier e later split
    rw [assigned.typeName_eq split]
    exact ⟨Naming.searchEnds_fresh _ _, Naming.isFirstFree_fresh _ _⟩
  · intro more decodableMore all log'' longer
    have checksAll :=
      checks_assigned method [] (List.forall_mem_append.2 ⟨decodable, decodableMore⟩)
    have assignedAll := checksAll.of_returns longer
    rw [sampledPaths, List.filterMap_append] at assignedAll
    exact assigned.prefix_names assignedAll

/-- Paths whose bases and numbered names get in each other's way, and one without samples. -/
def crowdedPaths : List (Text × Json) :=
  [("/users2", .arr [.int 1]), ("/users", .arr [.str "x"]), ("/users/\x7bid\x7d", .arr []),
    ("/users?all", .arr [.null]), ("/users2/\x7bid\x7d", .arr [.bool true])]

theorem assigns_crowdedPaths :
    (∀ entry ∈ crowdedPaths, entry.2.Decodable) ∧
    (∀ entry ∈ crowdedPaths, isSampleList entry.2 = true) ∧
    ∃ log, Returns (methodEndpoints "get" [] crowdedPaths) []
        [⟨"get", "/users2", "Users2", .number⟩, ⟨"get", "/users", "Users", .string⟩,
          ⟨"get", "/users?all", "Users3", .null⟩,
          ⟨"get", "/users2/\x7bid\x7d", "Users22", .boolean⟩] log ∧
      SearchEnds ["Users2", "Users"] "Users" "Users3" ∧
      IsFirstFree ["Users2", "Users"] "Users" "Users3" := by
  have parsed : Json.parse ("\x7b\"/users2\":[1],\"/users\":[\"x\"],\"/users/\x7bid\x7d\":[]," ++
      "\"/users?all\":[null],\"/users2/\x7bid\x7d\":[true]\x7d") = .ok (.obj crowdedPaths) := by
    decide +kernel
  have decodable : ∀ entry ∈ crowdedPaths, entry.2.Decodable := by
    cases Json.decodable_of_parse parsed with
    | obj distinct each => exact each
  have lists : ∀ entry ∈ crowdedPaths, isSampleList entry.2 = true := by decide
  have ran := returns_of_toOption_eq_some (x := methodEndpoints "get" [] crowdedPaths) (s := [])
    (a := [⟨"get", "/users2", "Users2", .number⟩, ⟨"get", "/users", "Users", .string⟩,
      ⟨"get", "/users?all", "Users3", .null⟩,
      ⟨"get", "/users2/\x7bid\x7d", "Users22", .boolean⟩]) (by decide +kernel)
  obtain ⟨endpoints, log, returns, -, named, -⟩ :=
    methodEndpoints_assigns_first_free "get" decodable lists []
  obtain ⟨rfl, rfl⟩ := returns.unique ran
  have base : baseName "/users?all" = "Users" := by decide +kernel
  have third := named [_, _] _ [_] rfl
  rw [base] at third
  exact ⟨decodable, lists, _, returns, third⟩

end Discovery

end JsonShapes
