import CloudI.Uuid.V1
import Mathlib.Data.List.TakeWhile

/-!
# Configuration.ServiceIds

The ids that `services_add` of `cloudi_core_i_configuration` gives to services.  Within a call the
generator of the ids goes from one to the next.  The one that the last id leaves is dropped, so
that every call begins with the generator of the configuration.

The checks of a service, the expansion of its access control lists and its start are answered by
the surroundings (`CloudI.Configuration.Services` has the starts).
-/

namespace CloudI.Configuration.ServiceIds

open List
open Uuid (timestamps tick idAt getV1)

variable {ρ : Type}

/-- A service that is to be added: what the checks say, the clock when its id is made, and what
its start comes to; `none` is no error. -/
structure Proposed (ρ : Type) where
  check : Option ρ
  clock : Int
  start : Option ρ

/-- A service that was validated. -/
structure Validated (ρ : Type) where
  uuid : Uuid.Id
  start : Option ρ

/-- A call of `services_add`: its argument, and the error of `services_acl_expand`. -/
structure Call (ρ : Type) where
  services : List (Proposed ρ)
  aclExpand : Option ρ

/-- `#config{}`: the generator, and the ids of the services. -/
structure Config where
  uuidGenerator : Uuid.State
  services : List Uuid.Id

/-- The errors. -/
inductive ErrorReason (ρ : Type) where
  | serviceInvalid
  | reason (reason : ρ)

def servicesValidate (services : List (Proposed ρ)) (output : List (Validated ρ))
    (uuid : Uuid.State) : Except ρ (List (Validated ρ)) :=
  match services with
  | [] => .ok output.reverse
  | service :: services =>
      match service.check with
      | some reason => .error reason
      | none =>
          let (id, newUuid) := getV1 service.clock uuid
          servicesValidate services (⟨id, service.start⟩ :: output) newUuid

/-- `services_add_service/3`: the error of the first start that failed, and the ids that were
added. -/
def servicesAddService (services : List (Validated ρ)) (added : List Uuid.Id) :
    Option ρ × List Uuid.Id :=
  match services with
  | [] => (none, added.reverse)
  | service :: services =>
      match service.start with
      | none => servicesAddService services (service.uuid :: added)
      | some reason => (some reason, added.reverse)

def servicesAdd (call : Call ρ) (config : Config) :
    Except (ErrorReason ρ) (List Uuid.Id) × Config :=
  match call.services with
  | [] => (.error .serviceInvalid, config)
  | _ :: _ =>
      match servicesValidate call.services [] config.uuidGenerator, call.aclExpand with
      | .error reason, _ => (.error (.reason reason), config)
      | .ok _, some reason => (.error (.reason reason), config)
      | .ok validated, none =>
          let (error, newServices) := servicesAddService validated []
          let reply :=
            match error with
            | none => .ok (validated.map Validated.uuid)
            | some reason => .error (.reason reason)
          (reply, { config with services := config.services ++ newServices })

/-! ## what a call issues -/

/-- The services that a call starts: all up to the first whose start fails, unless the call is
refused before. -/
def Call.started (call : Call ρ) : List (Proposed ρ) :=
  if (call.services.all fun service => service.check.isNone) ∧ call.aclExpand = none then
    call.services.takeWhile fun service => service.start.isNone
  else []

/-- The times of the ids that a call issues, with the time at which the generator began. -/
def Call.taken (last : Int) (call : Call ρ) : List Int :=
  timestamps last (call.started.map Proposed.clock)

/-- The services that are validated have the ids of their times. -/
theorem servicesValidate_spec {services : List (Proposed ρ)}
    {output : List (Validated ρ)} {uuid : Uuid.State} :
    servicesValidate services output uuid = match services.findSome? Proposed.check with
      | some reason => .error reason
      | none => .ok (output.reverse ++
          (List.zipWith (fun t service => ⟨idAt uuid t, service.start⟩)
            (timestamps uuid.timestampLast (services.map Proposed.clock)) services)) := by
  induction services generalizing output uuid with
  | nil => simp [servicesValidate, timestamps]
  | cons service services ih =>
    cases hcheck : service.check with
    | some reason => simp [servicesValidate, hcheck]
    | none =>
      rw [servicesValidate, hcheck]
      simp only [getV1, ih, findSome?_cons, hcheck, map_cons, timestamps,
        zipWith_cons_cons, reverse_cons, append_assoc]
      rfl

theorem servicesAddService_snd {services : List (Validated ρ)} {added : List Uuid.Id} :
    (servicesAddService services added).2 = added.reverse ++
      (services.takeWhile fun service => service.start.isNone).map Validated.uuid := by
  induction services generalizing added with
  | nil => simp [servicesAddService]
  | cons service services ih =>
    cases hstart : service.start with
    | none => simp [servicesAddService, hstart, ih]
    | some reason => simp [servicesAddService, hstart]

/-- The ids that a call issues. -/
def Call.issued (uuid : Uuid.State) (call : Call ρ) : List Uuid.Id :=
  (call.taken uuid.timestampLast).map (idAt uuid)

theorem takeWhile_zipWith (f : Int → Proposed ρ → Validated ρ) (uuid : Uuid.State)
    (hf : ∀ t service, f t service = ⟨idAt uuid t, service.start⟩) (last : Int)
    (services : List (Proposed ρ)) :
    ((List.zipWith f (timestamps last (services.map Proposed.clock)) services).takeWhile
        fun service => service.start.isNone).map Validated.uuid =
      (timestamps last ((services.takeWhile fun service => service.start.isNone).map
        Proposed.clock)).map (idAt uuid) := by
  induction services generalizing last with
  | nil => rfl
  | cons service services ih =>
    cases hstart : service.start with
    | some reason => simp [timestamps, hf, hstart]
    | none => simp [timestamps, hf, hstart, ih]

theorem servicesAdd_snd (call : Call ρ) (config : Config) : (servicesAdd call config).2 =
      { config with services := config.services ++ call.issued config.uuidGenerator } := by
  unfold servicesAdd Call.issued Call.taken Call.started
  cases hservices : call.services with
  | nil => simp [timestamps]
  | cons service services =>
    dsimp only
    rw [servicesValidate_spec]
    cases hcheck : (service :: services).findSome? Proposed.check with
    | some reason =>
      have hall : ¬ ((service :: services).all fun service => service.check.isNone) = true := by
        obtain ⟨s, hs, hsome⟩ := exists_of_findSome?_eq_some hcheck
        rw [all_eq_true]
        intro hnone
        simpa [hsome] using hnone s hs
      simp [hall, timestamps]
    | none =>
      have hall : ((service :: services).all fun service => service.check.isNone) = true := by
        rw [findSome?_eq_none_iff] at hcheck
        rw [all_eq_true]
        intro s hs
        rw [hcheck s hs]
        rfl
      cases hacl : call.aclExpand with
      | some reason => simp [timestamps]
      | none =>
        dsimp only
        rw [if_pos ⟨hall, rfl⟩,
          ← takeWhile_zipWith (fun t service => ⟨idAt config.uuidGenerator t, service.start⟩)
            config.uuidGenerator (fun _ _ => rfl)]
        rw [servicesAddService_snd]
        rfl

/-! ## runs -/

/-- The configuration after calls. -/
def configAfter (config : Config) (calls : List (Call ρ)) : Config :=
  calls.foldl (fun config call => (servicesAdd call config).2) config

theorem configAfter_eq (config : Config) (calls : List (Call ρ)) : configAfter config calls =
      { config with
        services := config.services ++ calls.flatMap (Call.issued config.uuidGenerator) } := by
  induction calls generalizing config with
  | nil => simp [configAfter]
  | cons call calls ih =>
    have hstep := ih (servicesAdd call config).2
    rw [servicesAdd_snd] at hstep
    simpa [configAfter, servicesAdd_snd] using hstep

/-- No id is made of a time that was taken: calls take different times, as far as an id has them,
and so do the services of a call. -/
structure Clashless (last : Int) (calls : List (Call ρ)) : Prop where
  apart : calls.Pairwise fun call call' =>
    ∀ t ∈ call.taken last, ∀ t' ∈ call'.taken last, tick t ≠ tick t'
  within : ∀ call ∈ calls, (call.taken last).Pairwise fun t t' => tick t ≠ tick t'

/-- **Service ids are unique** exactly when no call takes a time again: the ids that are in the
configuration after any calls are distinct if and only if the times are. -/
theorem ids_nodup_iff (uuid : Uuid.State) (calls : List (Call ρ)) :
    (configAfter ⟨uuid, []⟩ calls).services.Nodup ↔ Clashless uuid.timestampLast calls := by
  have hids : (configAfter ⟨uuid, []⟩ calls).services = calls.flatMap (Call.issued uuid) := by
    rw [configAfter_eq]
    rfl
  have hwithin : ∀ call : Call ρ, (call.issued uuid).Nodup ↔
      (call.taken uuid.timestampLast).Pairwise fun t t' => tick t ≠ tick t' := by
    intro call
    rw [Call.issued, List.Nodup, pairwise_map]
    simp only [ne_eq, Uuid.idAt_eq_iff]
  have hapart : ∀ call call' : Call ρ, List.Disjoint (call.issued uuid) (call'.issued uuid) ↔
        ∀ t ∈ call.taken uuid.timestampLast, ∀ t' ∈ call'.taken uuid.timestampLast,
          tick t ≠ tick t' := by
    intro call call'
    constructor
    · intro hdisjoint t ht t' ht' heq
      exact hdisjoint (mem_map_of_mem ht)
        (mem_map.mpr ⟨t', ht', Uuid.idAt_eq_iff.mpr heq.symm⟩)
    · intro hticks id hid hid'
      obtain ⟨t, ht, rfl⟩ := mem_map.mp hid
      obtain ⟨t', ht', heq⟩ := mem_map.mp hid'
      exact hticks t ht t' ht' (Uuid.idAt_eq_iff.mp heq).symm
  rw [hids, nodup_flatMap]
  constructor
  · rintro ⟨hnodup, hdisjoint⟩
    exact ⟨hdisjoint.imp fun h => (hapart _ _).mp h, fun call hcall => (hwithin call).mp (hnodup call hcall)⟩
  · rintro ⟨happart, hticks⟩
    exact ⟨fun call hcall => (hwithin call).mpr (hticks call hcall),
      happart.imp fun h => (hapart _ _).mpr h⟩

/-- Two calls at the same time give the same id to two services. -/
theorem same_reading_repeats :
    ¬ (configAfter ⟨⟨7, 3, 100⟩, []⟩ [(⟨[⟨none, 500, none⟩], none⟩ : Call Empty),
      ⟨[⟨none, 500, none⟩], none⟩]).services.Nodup := by
  decide

end CloudI.Configuration.ServiceIds
