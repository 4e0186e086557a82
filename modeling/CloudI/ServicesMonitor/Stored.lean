import CloudI.Library.Except
import CloudI.ServicesMonitor.Basic

/-!
# ServicesMonitor.Stored

What `services` means: each process of a service is one of the processes that were
started together, under one index.  `instances` gives this `ServiceInstance` for every
process that is stored; the functions that only change the other fields of a record do
not change it.

`Owned` is what the code relies on wherever it matches `{[ServiceId], Service}`: no
process belongs to two services.
-/

namespace CloudI.ServicesMonitor

open CloudI.Lists Option

variable {σ Pid α : Type} [LinearOrder σ] [LinearOrder Pid]

/-- The processes that were started together. -/
structure ServiceInstance (σ Pid : Type) where
  serviceId : σ
  processIndex : Nat
  pids : List Pid
  deriving DecidableEq

/-- The instance that a record is of. -/
def Service.toInstance (sid : σ) (service : Service Pid α) :
    ServiceInstance σ Pid where
  serviceId := sid
  processIndex := service.processIndex
  pids := service.pids

/-- The service and the record of a process. -/
def record (services : Services σ Pid α) (pid : Pid) : Option (σ × Service Pid α) :=
  match Key2value.find2 pid services with
  | some ([sid], service) => some (sid, service)
  | _ => none

/-- **The instance of a process.** -/
def instances (services : Services σ Pid α) (pid : Pid) : Option (ServiceInstance σ Pid) :=
  (record services pid).map fun x => x.2.toInstance x.1

/-- Every process belongs to one service. -/
structure Owned (services : Services σ Pid α) : Prop where
  linked : Key2value.Linked services
  single : ∀ pid serviceIds service, Key2value.find2 pid services = some (serviceIds, service) →
    ∃ sid, serviceIds = [sid]

variable {services : Services σ Pid α} {sid : σ}
  {service : Service Pid α} {pid : Pid}

/-! ## lookups -/

section

variable (h : Owned services)

include h

theorem find2_eq (pid : Pid) :
    Key2value.find2 pid services = (record services pid).map fun x => ([x.1], x.2) := by
  rw [record]
  cases hfind : Key2value.find2 pid services with
  | none => rfl
  | some x =>
    obtain ⟨sid, hids⟩ := h.single pid x.1 x.2 hfind
    obtain ⟨serviceIds, service⟩ := x
    dsimp only at hids
    subst hids
    rfl

theorem record_eq_some : record services pid = some (sid, service) ↔
      Key2value.find2 pid services = some ([sid], service) := by
  rw [find2_eq h]
  cases record services pid with
  | none => simp
  | some x =>
    obtain ⟨sid', service'⟩ := x
    simp

theorem findPid_eq (pid : Pid) : findPid pid services = .ok (record services pid) := by
  rw [findPid, find2_eq h]
  cases record services pid <;> rfl

theorem mem_keys2 : pid ∈ Key2value.keys2 sid services ↔
    ∃ service, record services pid = some (sid, service) := by
  rw [h.linked.mem, Key2value.keys1, find2_eq h]
  cases record services pid with
  | none => simp
  | some x =>
    obtain ⟨sid', service'⟩ := x
    simp [eq_comm]

theorem mem_keys2_iff_instances : pid ∈ Key2value.keys2 sid services ↔
      ∃ x, instances services pid = some x ∧ x.serviceId = sid := by
  rw [mem_keys2 h, instances]
  constructor
  · rintro ⟨service, hrecord⟩
    exact ⟨service.toInstance sid, by rw [hrecord]; rfl, rfl⟩
  · rintro ⟨x, hx, hid⟩
    obtain ⟨⟨sid', service⟩, hrecord, rfl⟩ := map_eq_some_iff.mp hx
    exact ⟨service, by rw [hrecord, ← hid]; rfl⟩

end

theorem instances_of_record (h : record services pid = some (sid, service)) :
    instances services pid = some (service.toInstance sid) := by
  rw [instances, h]
  rfl

theorem owned_empty : Owned ({} : Services σ Pid α) where
  linked := Key2value.linked_empty
  single := by simp [Key2value.find2]

theorem instances_empty (p : Pid) : instances ({} : Services σ Pid α) p = none := by
  simp [instances, record, Key2value.find2]

/-! ## store -/

/-- The process has no other service. -/
def FreeFor (services : Services σ Pid α) (sid : σ) (pid : Pid) : Prop :=
  ∀ x, instances services pid = some x → x.serviceId = sid

section

variable (h : Owned services) (hfree : FreeFor services sid pid)

include h hfree

theorem find2_store_of_free (q : Pid)
    : Key2value.find2 q (Key2value.store sid pid service services) =
      if pid = q then some ([sid], service) else Key2value.find2 q services := by
  rw [Key2value.find2_store, Key2value.keys1, find2_eq h]
  by_cases hq : pid = q
  · rw [if_pos hq, if_pos hq]
    cases hrecord : record services pid with
    | none => rfl
    | some x =>
      have hid : x.1 = sid := hfree _ (instances_of_record hrecord)
      rw [← hid]
      simp [uinsert]
  · rw [if_neg hq, if_neg hq]

theorem Owned.store : Owned (Key2value.store sid pid service services) where
  linked := h.linked.store sid pid service
  single q serviceIds x hfind := by
    rw [find2_store_of_free h hfree] at hfind
    by_cases hq : pid = q
    · rw [if_pos hq, Option.some.injEq, Prod.mk.injEq] at hfind
      exact ⟨sid, hfind.1.symm⟩
    · rw [if_neg hq] at hfind
      exact h.single q serviceIds x hfind

theorem record_store (q : Pid) : record (Key2value.store sid pid service services) q =
      if pid = q then some (sid, service) else record services q := by
  rw [record, find2_store_of_free h hfree]
  by_cases hq : pid = q
  · rw [if_pos hq, if_pos hq]
  · rw [if_neg hq, if_neg hq, ← record]

theorem instances_store (q : Pid) : instances (Key2value.store sid pid service services) q =
      if pid = q then some (service.toInstance sid) else instances services q := by
  rw [instances, record_store h hfree]
  by_cases hq : pid = q
  · rw [if_pos hq, if_pos hq]
    rfl
  · rw [if_neg hq, if_neg hq, ← instances]

end

section

variable (h : Owned services)

include h

/-- **The processes of an instance are stored.** -/
theorem storePids_spec (hfree : ∀ p ∈ pids, FreeFor services sid p) :
    Owned (storePids sid service pids services) ∧
      ∀ q, record (storePids sid service pids services) q =
        if q ∈ pids then some (sid, service) else record services q := by
  induction pids generalizing services with
  | nil => exact ⟨h, fun q => by simp [storePids]⟩
  | cons p pids ih =>
    have hp := hfree p List.mem_cons_self
    have hfree' : ∀ q ∈ pids, FreeFor (Key2value.store sid p service services) sid q := by
      intro q hq x hx
      rw [instances_store h hp] at hx
      by_cases hpq : p = q
      · rw [if_pos hpq, Option.some.injEq] at hx
        rw [← hx]
        rfl
      · rw [if_neg hpq] at hx
        exact hfree q (List.mem_cons_of_mem p hq) x hx
    obtain ⟨howned, hrecord⟩ := ih (h.store hp) hfree'
    refine ⟨howned, fun q => ?_⟩
    show record (storePids sid service pids (Key2value.store sid p service services)) q
      = _
    rw [hrecord, record_store h hp]
    by_cases hmem : q ∈ pids
    · simp [hmem]
    · by_cases hpq : p = q
      · simp [hpq]
      · simp [hmem, hpq, Ne.symm hpq]

theorem instances_storePids (hfree : ∀ p ∈ pids, FreeFor services sid p) (q : Pid)
    : instances (storePids sid service pids services) q =
      if q ∈ pids then some (service.toInstance sid) else instances services q := by
  rw [instances, (storePids_spec h hfree).2]
  by_cases hq : q ∈ pids
  · rw [if_pos hq, if_pos hq]
    rfl
  · rw [if_neg hq, if_neg hq, ← instances]

/-! ## erase -/

theorem find2_erase_single (q : Pid) : Key2value.find2 q (Key2value.erase sid pid services) =
      if pid = q ∧ (record services q).map Prod.fst = some sid then none
      else Key2value.find2 q services := by
  rw [Key2value.find2_erase h.linked, find2_eq h]
  by_cases hq : pid = q
  · rw [if_pos hq]
    cases hrecord : record services q with
    | none => simp
    | some x =>
      rw [map_some, bind_some, Key2value.without]
      by_cases hid : x.1 = sid
      · simp [hq, hid]
      · simp [hid]
  · simp [hq]

theorem Owned.erase : Owned (Key2value.erase sid pid services) where
  linked := h.linked.erase sid pid
  single q serviceIds x hfind := by
    rw [find2_erase_single h, ite_none_left_eq_some] at hfind
    exact h.single q serviceIds x hfind.2

theorem instances_erase : instances (Key2value.erase sid pid services) q = some x ↔
      instances services q = some x ∧ ¬ (pid = q ∧ x.serviceId = sid) := by
  rw [instances, record, find2_erase_single h]
  by_cases hand : pid = q ∧ (record services q).map Prod.fst = some sid
  · rw [if_pos hand]
    refine iff_of_false nofun fun hx => hx.2 ⟨hand.1, ?_⟩
    obtain ⟨y, hy, rfl⟩ := map_eq_some_iff.mp hx.1
    rw [hy] at hand
    exact Option.some.inj hand.2
  · rw [if_neg hand, ← record, ← instances]
    refine (and_iff_left_of_imp fun hx hpq => hand ⟨hpq.1, ?_⟩).symm
    obtain ⟨y, hy, rfl⟩ := map_eq_some_iff.mp hx
    rw [hy, ← hpq.2]
    rfl

end

/-- What is left are the other processes and services. -/
theorem terminateServicePids_spec (sid : σ) (oldPid : Option Pid) (pids : List Pid)
    (h : Owned services) :
    Owned (terminateServicePids sid oldPid pids services).1 ∧
      ∀ q x, instances (terminateServicePids sid oldPid pids services).1 q = some x ↔
        instances services q = some x ∧ ¬ (q ∈ pids ∧ x.serviceId = sid) := by
  induction pids generalizing services with
  | nil => exact ⟨h, fun q x => by simp [terminateServicePids]⟩
  | cons p pids ih =>
    have herase : Owned (Key2value.erase sid p services) := h.erase
    obtain ⟨howned, hinstances⟩ := ih herase
    refine ⟨howned, fun q x => ?_⟩
    show instances (terminateServicePids sid oldPid pids
      (Key2value.erase sid p services)).1 q = some x ↔ _
    rw [hinstances, instances_erase h, List.mem_cons, and_assoc, eq_comm (a := p)]
    tauto

/-! ## update -/

/-- New arguments move no process. -/
theorem updateService_spec (h : Owned services)
    (hupdate : updateService serviceIds argumentsNew services = .ok services') :
    Owned services' ∧ ∀ q, instances services' q = instances services q := by
  induction serviceIds generalizing services with
  | nil =>
    cases hupdate
    exact ⟨h, fun _ => rfl⟩
  | cons id serviceIds ih =>
    rw [updateService, List.foldlM_cons] at hupdate
    cases hfind : Key2value.find1 id services with
    | none => simp [Key2value.update1, hfind] at hupdate
    | some x =>
      obtain ⟨services₁, hupdate₁, hlinked, -, hfind2⟩ := Key2value.update1_spec h.linked
        (fun service => { service with arguments := argumentsNew service.arguments }) hfind
      rw [hupdate₁] at hupdate
      have howned : Owned services₁ := by
        refine ⟨hlinked, fun q serviceIds' service' hq => ?_⟩
        rw [hfind2, find2_eq h] at hq
        cases hrecord : record services q with
        | none => simp [hrecord] at hq
        | some y =>
          rw [hrecord] at hq
          refine ⟨y.1, ?_⟩
          split at hq
          · exact (Prod.mk.inj (Option.some.inj hq)).1.symm
          · exact (Prod.mk.inj (Option.some.inj hq)).1.symm
      have hinstances : ∀ q, instances services₁ q = instances services q := by
        intro q
        rw [instances, instances, record, hfind2, find2_eq h]
        by_cases hq : q ∈ Key2value.keys2 id services
        · rw [if_pos hq]
          cases record services q <;> rfl
        · rw [if_neg hq]
          cases record services q <;> rfl
      obtain ⟨howned', hinstances'⟩ := ih howned hupdate
      exact ⟨howned', fun q => (hinstances' q).trans (hinstances q)⟩

end CloudI.ServicesMonitor
