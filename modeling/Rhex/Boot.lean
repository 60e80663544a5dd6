import Mathlib
import Rhex.ShmServices

/-!
# The start of the services (`main.c`)

`start_microservices` calls the init functions of all services of its machine, and then starts the
services, which open the segments they use. Of these only `rhex_telemetry_main`, `rssi_tx_main` and
`rssi_rx_main` look at the result of `shm_map_open`.

* `Machine.boot` — the calls of the init functions.
* `ShmSystem.Serves` — which segments there are, and which of them are open.
* `segments_served` — what the services find, in every run.
-/

namespace Rhex

open Memory

/-! ## The machines -/

/-- Where the services run. -/
inductive Machine where
  | robot | ground
deriving DecidableEq

/-- `svc_start_list`. -/
def Machine.services : Machine → List Service
  | robot => [.gps, .sensors, .motion, .telemetry, .rc, .rssi, .camera]
  | ground => [.rssiRx, .telemetryRx, .rssiQgc, .video, .rcTx, .control]

/-- The first status that `telemetry_rx_init` and `wfb_rx_stream_init` write. -/
structure InitStatus where
  telemetry : List UInt8
  video : List UInt8
  telemetry_length : telemetry.length = CType.wifibroadcastRxStatusRc.size
  video_length : video.length = CType.wifibroadcastRxStatus.size

/-- The init function of a service: it declares segments, and `telemetry_rx_init` and `video_init`
open theirs too, and write a first status. -/
def Service.initCalls (status : InitStatus) (s : Service) : List ShmCall :=
  s.inits.map (fun p => .init s p.1) ++
    match s with
    | .telemetryRx => [.open s .rxStatusRc, .write s .rxStatusRc status.telemetry]
    | .video => [.open s .rxStatus, .write s .rxStatus status.video]
    | _ => []

/-- The first loop of `start_microservices`. -/
def Machine.boot (m : Machine) (status : InitStatus) : List ShmCall :=
  m.services.flatMap (Service.initCalls status)

/-- The service makes the call in its cycles or before them: it is in its program, and is not a
`shm_map_init`. -/
def Service.Calls (s : Service) : ShmCall → Prop
  | .init _ _ => False
  | .open s' name => s' = s ∧ name ∈ s.opens
  | .write s' name data => s' = s ∧ s.Writes name data

/-- Calls of the services of the machine, in any order. -/
def Machine.Runs (m : Machine) (calls : List ShmCall) : Prop :=
  ∀ call ∈ calls, ∃ s ∈ m.services, s.Calls call

/-- `shm_map_open` returns true. -/
def ShmSystem.openSucceeds (w : PtrWidth) (sys : ShmSystem) (name : ShmName) : Bool :=
  ((sys.segments name).bind (shmMapOpen w.bytes)).isSome

/-- The segment that a call creates. -/
def ShmCall.creates : ShmCall → Option ShmName
  | .init _ name => some name
  | _ => none

def Machine.created (m : Machine) : List ShmName :=
  m.services.flatMap fun s => s.inits.map Prod.fst

/-! ## What the services are promised -/

/-- An open of any service succeeds, but for `rssi_tx_main`, whose opens all fail. -/
def OpensServed (w : PtrWidth) (sys : ShmSystem) : ShmCall → Prop
  | .open s name => sys.openSucceeds w name = true ↔ s ≠ .rssi
  | _ => True

/-- Whoever has opened a segment finds in it a whole record: `shm_map_read` returns an address, and
the bytes of the declared type lie behind it in the mapping; with pointers of four bytes only in the
first two slots. -/
def ReadsServed (w : PtrWidth) (sys : ShmSystem) : Prop :=
  ∀ s name, (sys.handles s name).guard = shmGuard → ∃ seg addr,
    sys.segments name = some seg ∧
      shmMapRead w.bytes (sys.handles s name) seg = (0, some addr) ∧
      (w = .eight ∨ seg.header.index.toNat % shmCopies < 2 →
        addr + name.declared.size ≤ (sys.handles s name).mapLen)

/-! ## Invariant -/

/-- **What holds between two calls**: the segments created so far are there, laid out for their
types, and only they are open. -/
structure ShmSystem.Serves (w : PtrWidth) (created : List ShmName) (sys : ShmSystem) : Prop where
  laid : sys.Laid w
  segments : ∀ name, (sys.segments name).isSome = true ↔ name ∈ created
  opened : ∀ s name, (sys.handles s name).guard = shmGuard → name ∈ created

namespace ShmSystem.Serves

variable {w : PtrWidth} {created : List ShmName} {sys sys' : ShmSystem}

theorem start (w : PtrWidth) : ShmSystem.start.Serves w [] := by
  refine ⟨ShmSystem.Laid.start w, fun name => ?_, fun s name hguard => ?_⟩
  · simp [ShmSystem.start]
  · exact absurd hguard (by simp [ShmSystem.start, Shm.zero, shmGuard])

theorem openSucceeds_iff (h : sys.Serves w created) (name : ShmName) :
    sys.openSucceeds w name = true ↔ name ∈ created := by
  rw [← h.segments, ShmSystem.openSucceeds]
  cases hseg : sys.segments name with
  | none => rfl
  | some seg =>
    rw [Option.bind_some, ShmSystem.Laid.shmMapOpen_laid (h.laid.segment name seg hseg)]
    rfl

/-- A segment is set, and perhaps created. -/
theorem setSegment (h : sys.Serves w created) {name : ShmName} {o : Option Segment}
    {more : List ShmName}
    (hlaid : Laid w { sys with segments := Function.update sys.segments name o })
    (ho : o.isSome = true ↔ name ∈ created ++ more) (hmore : ∀ name' ∈ more, name' = name) :
    Serves w (created ++ more)
      { sys with segments := Function.update sys.segments name o } := by
  refine ⟨hlaid, fun name' => ?_, fun s name' hguard =>
    List.mem_append_left _ (h.opened s name' hguard)⟩
  by_cases hname : name' = name
  · subst hname
    simpa only [Function.update_self] using ho
  · have hnot : name' ∉ more := fun hmem => hname (hmore name' hmem)
    simp only [Function.update_of_ne hname, List.mem_append, hnot, or_false]
    exact h.segments name'

/-- **One call.** -/
theorem step (h : sys.Serves w created) {call : ShmCall}
    (hstep : shmSystemStep w sys call = some sys') :
    sys'.Serves w (created ++ call.creates.toList) := by
  have hlaid := h.laid.step hstep
  cases call with
  | init s name =>
    obtain ⟨t, -, hsys⟩ := Option.bind_eq_some_iff.mp hstep
    obtain rfl := Option.some.inj hsys
    refine h.setSegment hlaid (by simp [ShmCall.creates]) fun name' hmem => ?_
    exact List.mem_singleton.mp hmem
  | «open» s name =>
    change sys'.Serves w (created ++ [])
    rw [List.append_nil]
    simp only [shmSystemStep] at hstep
    split_ifs at hstep
    cases hseg : sys.segments name with
    | none =>
      simp only [hseg, Option.bind_none, Option.some.injEq] at hstep
      exact hstep ▸ h
    | some seg =>
      simp only [hseg, Option.bind_some,
        ShmSystem.Laid.shmMapOpen_laid (h.laid.segment name seg hseg), Option.some.injEq] at hstep
      subst hstep
      refine ⟨hlaid, h.segments, fun s' name' hguard => ?_⟩
      by_cases hsame : s' = s ∧ name' = name
      · obtain ⟨rfl, rfl⟩ := hsame
        rw [← h.segments, hseg]
        rfl
      · refine h.opened s' name' ?_
        by_cases hs : s' = s
        · subst hs
          have hname : name' ≠ name := fun heq => hsame ⟨rfl, heq⟩
          simpa only [Function.update_self, Function.update_of_ne hname] using hguard
        · simpa only [Function.update_of_ne hs] using hguard
  | write s name data =>
    simp only [shmSystemStep] at hstep
    split_ifs at hstep
    obtain rfl := Option.some.inj hstep
    refine h.setSegment hlaid ?_ fun name' hmem => absurd hmem List.not_mem_nil
    change _ ↔ name ∈ created ++ []
    rw [List.append_nil, Option.isSome_map, h.segments]

/-- A read of an open segment. -/
theorem readsServed (h : sys.Serves w created) : ReadsServed w sys := by
  intro s name hguard
  obtain ⟨seg, hseg⟩ :=
    Option.isSome_iff_exists.mp ((h.segments name).mpr (h.opened s name hguard))
  have hnext : seg.header.index.toNat % shmCopies < shmCopies := Nat.mod_lt _ (by decide)
  refine ⟨seg, _, hseg, by rw [shmMapRead, if_neg (not_not.mpr hguard)], fun hslot => ?_⟩
  have hup := Align.le_up (a := w.bytes) (by cases w <;> decide) name.declared.size
  rw [(h.laid.segment name seg hseg).slotAddr hnext, h.laid.mapLen s name hguard,
    calcShmSize_bytes w (declared_le name)]
  cases w with
  | four =>
    have := slots_apart 2 (Align.up 4 name.declared.size) (by decide)
      (hslot.resolve_left (by decide))
    simp only [PtrWidth.bytes, shmCopies, sizeofShmHeader] at *
    omega
  | eight =>
    have := slots_apart 1 (Align.up 8 name.declared.size) (by decide) hnext
    simp only [PtrWidth.bytes, shmCopies, sizeofShmHeader] at *
    omega

end ShmSystem.Serves

/-! ## Runs -/

/-- The call is in the program of the service that makes it. -/
def ShmCall.Made : ShmCall → Prop
  | .init s name => (s.inits.lookup name).isSome = true
  | .open s name => name ∈ s.opens
  | .write s name data => s.Writes name data

/-- A call that is made is never stuck. -/
theorem ShmCall.Made.step {call : ShmCall} (h : call.Made) (w : PtrWidth) (sys : ShmSystem) :
    ∃ sys', shmSystemStep w sys call = some sys' := by
  cases call with
  | init s name =>
    obtain ⟨t, ht⟩ := Option.isSome_iff_exists.mp h
    simp only [shmSystemStep, ht]
    exact ⟨_, rfl⟩
  | «open» s name =>
    simp only [shmSystemStep]
    rw [if_pos (show name ∈ s.opens from h)]
    split <;> exact ⟨_, rfl⟩
  | write s name data =>
    simp only [shmSystemStep]
    rw [if_pos (show s.Writes name data from h)]
    exact ⟨_, rfl⟩

/-- Only the names of the segments. -/
def createStep (created : List ShmName) (call : ShmCall) : Option (List ShmName) :=
  some (created ++ call.creates.toList)

/-- A service opens what was created, and `rssi_tx_main` what was not. -/
def OpensCreated (created : List ShmName) : ShmCall → Prop
  | .open s name => name ∈ created ↔ s ≠ .rssi
  | _ => True

/-- **Calls, one after the other**: the system does what the names promise. -/
theorem ShmSystem.Serves.run {w : PtrWidth} {created : List ShmName} {sys : ShmSystem}
    (h : sys.Serves w created) {calls : List ShmCall} (hmade : ∀ call ∈ calls, call.Made)
    (hopens : Run.Throughout createStep OpensCreated created calls) :
    Run.Throughout (shmSystemStep w) (fun sys call => OpensServed w sys call ∧ ReadsServed w sys)
        sys calls ∧
      ∃ sys', calls.foldlM (shmSystemStep w) sys = some sys' ∧
        sys'.Serves w (created ++ calls.filterMap ShmCall.creates) := by
  induction calls generalizing sys created with
  | nil => exact ⟨trivial, sys, rfl, by simpa using h⟩
  | cons call calls ih =>
    obtain ⟨sys₁, hstep⟩ := (hmade call List.mem_cons_self).step w sys
    have hserved : OpensServed w sys call := by
      cases call with
      | init => trivial
      | «open» s name => exact (h.openSucceeds_iff name).trans hopens.1
      | write => trivial
    obtain ⟨hrest, sys', hrun, hserves⟩ := ih (h.step hstep)
      (fun c hc => hmade c (List.mem_cons_of_mem call hc)) (hopens.2 _ rfl)
    refine ⟨⟨⟨hserved, h.readsServed⟩, fun sys₂ hsys₂ => ?_⟩, sys', ?_, ?_⟩
    · obtain rfl := Option.some.inj (hstep.symm.trans hsys₂)
      exact hrest
    · rw [List.foldlM_cons, hstep]
      exact hrun
    · rw [List.append_assoc] at hserves
      cases call <;> exact hserves

/-- What the services of a machine open is created on it, but for what `rssi_tx_main` opens. -/
theorem opens_created (m : Machine) :
    ∀ s ∈ m.services, ∀ name ∈ s.opens, (name ∈ m.created ↔ s ≠ .rssi) := by
  cases m <;> decide

theorem boot_creates (m : Machine) (status : InitStatus) :
    (m.boot status).filterMap ShmCall.creates = m.created := by
  cases m <;> rfl

theorem boot_made (m : Machine) (status : InitStatus) : ∀ call ∈ m.boot status, call.Made := by
  intro call hcall
  obtain ⟨s, -, hs⟩ := List.mem_flatMap.mp hcall
  rcases List.mem_append.mp hs with hinit | hmore
  · obtain ⟨p, hp, rfl⟩ := List.mem_map.mp hinit
    rw [ShmCall.Made, List.lookup_isSome_iff]
    exact ⟨p, hp, beq_self_eq_true p.1⟩
  · cases s with
    | telemetryRx =>
      rcases List.mem_pair.mp hmore with rfl | rfl
      · exact List.mem_singleton_self _
      · exact ⟨_, List.mem_singleton_self _, rfl, status.telemetry_length⟩
    | video =>
      rcases List.mem_pair.mp hmore with rfl | rfl
      · exact List.mem_singleton_self _
      · exact ⟨_, List.mem_singleton_self _, rfl, status.video_length⟩
    | _ => exact absurd hmore List.not_mem_nil

theorem boot_opens (m : Machine) (status : InitStatus) :
    Run.Throughout createStep OpensCreated [] (m.boot status) := by
  cases m <;>
    simp [Machine.boot, Machine.services, Service.initCalls, Service.inits, Run.Throughout,
      createStep, OpensCreated, ShmCall.creates]

theorem Machine.Runs.made {m : Machine} {calls : List ShmCall} (h : m.Runs calls) :
    ∀ call ∈ calls, call.Made := by
  intro call hcall
  obtain ⟨s, -, hs⟩ := h call hcall
  cases call with
  | init => exact hs.elim
  | «open» s' name =>
    obtain ⟨rfl, hname⟩ := hs
    exact hname
  | write s' name data =>
    obtain ⟨rfl, hwrites⟩ := hs
    exact hwrites

/-- After the boot nothing is created. -/
theorem Machine.Runs.opens {m : Machine} {calls : List ShmCall} (h : m.Runs calls) :
    Run.Throughout createStep OpensCreated m.created calls := by
  refine Run.Throughout.of_invariant (I := fun created => created = m.created) ?_ ?_ rfl
  · rintro created call hcall created' rfl hstep
    obtain ⟨s, -, hs⟩ := h call hcall
    obtain rfl := Option.some.inj hstep
    cases call with
    | init => exact hs.elim
    | «open» => exact List.append_nil m.created
    | write => exact List.append_nil m.created
  · rintro created call hcall rfl
    obtain ⟨s, hmem, hs⟩ := h call hcall
    cases call with
    | init => trivial
    | «open» s' name =>
      obtain ⟨rfl, hname⟩ := hs
      exact opens_created m s' hmem name hname
    | write => trivial

/-- **Which segments the services find.** On both machines, in whatever order the services that
`start_microservices` has started open and write their segments: no call is stuck, every
`shm_map_open` succeeds, also those whose result is not looked at, and whoever has opened a segment
reads whole records from it; but the opens of `rssi_tx_main` all fail, for its segments are those of
the ground station, so that it ends before its first cycle and no link status is ever sent. -/
theorem segments_served (w : PtrWidth) {m : Machine} (status : InitStatus) {calls : List ShmCall}
    (h : m.Runs calls) :
    ∃ sys sys', (m.boot status).foldlM (shmSystemStep w) .start = some sys ∧
      calls.foldlM (shmSystemStep w) sys = some sys' ∧
      Run.Throughout (shmSystemStep w)
        (fun sys call => OpensServed w sys call ∧ ReadsServed w sys) .start
        (m.boot status ++ calls) := by
  obtain ⟨hboot, sys, hsys, hserves⟩ :=
    (ShmSystem.Serves.start w).run (boot_made m status) (boot_opens m status)
  rw [List.nil_append, boot_creates] at hserves
  obtain ⟨hcalls, sys', hsys', -⟩ := hserves.run h.made h.opens
  refine ⟨sys, sys', hsys, hsys', (Run.Throughout.append _ _ _).mpr ⟨hboot, fun t ht => ?_⟩⟩
  obtain rfl := Option.some.inj (hsys.symm.trans ht)
  exact hcalls

/-- The first status with all bytes zero. -/
def InitStatus.zero : InitStatus :=
  ⟨List.replicate _ 0, List.replicate _ 0, List.length_replicate, List.length_replicate⟩

/-- The ground station: `rssi_rx_main` opens the status of the robot and writes it, and
`rssi_qgc_main` opens it, too. -/
theorem segments_served_ground : ∃ sys sys',
    (Machine.ground.boot .zero).foldlM (shmSystemStep .eight) .start = some sys ∧
      [ShmCall.open .rssiRx .rxStatusSysair, .write .rssiRx .rxStatusSysair (List.replicate 40 7),
        .open .rssiQgc .rxStatusSysair].foldlM (shmSystemStep .eight) sys = some sys' ∧
      Run.Throughout (shmSystemStep .eight)
        (fun sys call => OpensServed .eight sys call ∧ ReadsServed .eight sys) .start
        (Machine.ground.boot .zero ++ [ShmCall.open .rssiRx .rxStatusSysair,
          .write .rssiRx .rxStatusSysair (List.replicate 40 7),
          .open .rssiQgc .rxStatusSysair]) := by
  refine segments_served .eight .zero fun call hcall => ?_
  simp only [List.mem_cons, List.not_mem_nil, or_false] at hcall
  rcases hcall with rfl | rfl | rfl
  · exact ⟨.rssiRx, by decide, rfl, by decide⟩
  · exact ⟨.rssiRx, by decide, rfl, by decide⟩
  · exact ⟨.rssiQgc, by decide, rfl, by decide⟩

end Rhex
