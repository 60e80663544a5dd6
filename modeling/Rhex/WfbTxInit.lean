import Mathlib
import Rhex.Netlink
import Rhex.WfbTx

/-!
# Opening the cards (`wfb_tx_init`)

`wfb_tx_init` goes through the interfaces with a radiotap header: it finds out the type of the card
by its driver, and opens a socket. The types are stored by one counter and the sockets by another.

* `initIfaces`, `WfbTx.wfbTxInit` — the loop, and the function. `none` is a call of `exit`.
* `initIfaces_spec` — the sockets and types after the loop.
* `wfbTxInit_usable` — when a result of zero means that the transmitter can be used.
-/

namespace Rhex

/-! ## One interface -/

/-- The results of `socket`, `ioctl` and `bind`. -/
structure SockCalls where
  socket : Int
  ioctl : Int
  bind : Int

/-- `wfb_open_sock` -/
def wfbOpenSock (c : SockCalls) : Option Int :=
  if c.socket = -1 then none
  else if c.ioctl < 0 then none
  else if c.bind = -1 then none
  else some c.socket

/-- What the two calls of `fgets` read from the `uevent` file of a device. -/
structure Uevent where
  first : Option (List Char)
  second : Option (List Char)

/-- An interface: its file, if it can be opened, and `char line[100]` before it is filled. -/
structure TxIface where
  uevent : Option Uevent
  stack : List Char
  sock : SockCalls

/-- `strncmp(line, s, n) == 0`, for the length `n` of `s`. -/
def strncmpEq (line : List Char) (s : String) : Bool := s.toList.isPrefixOf line

/-- The type of the card by the line of its driver. -/
def driverType (line : List Char) : Nat :=
  if strncmpEq line "DRIVER=ath9k_htc" ||
      (strncmpEq line "DRIVER=8812au" || strncmpEq line "DRIVER=8814au" ||
        strncmpEq line "DRIVER=rtl8812au" || strncmpEq line "DRIVER=rtl8814au" ||
        strncmpEq line "DRIVER=rtl88xxau") then
    if strncmpEq line "DRIVER=ath9k_htc" then 1 else 2
  else 0

/-- `line` after the loop over `fgets`, and whether all calls have read something. -/
def Uevent.line (u : Uevent) (stack : List Char) : List Char × Bool :=
  match u.first, u.second with
  | none, _ => (stack, false)
  | some line, none => (line, false)
  | some _, some line => (line, true)

/-- The classification of the driver of an interface. -/
def TxIface.driver (f : TxIface) : Nat :=
  match f.uevent with
  | none => 0
  | some u => driverType (u.line f.stack).1

/-! ## `wfb_tx_init` -/

/-- A socket, and the interface that it was opened for. -/
structure TxSock where
  fd : Int
  iface : Nat
deriving DecidableEq

/-- `wfb_tx_t` -/
structure WfbTx where
  sock : Nat → Option TxSock
  type : Nat → Nat
  count : Nat

/-- As a static variable. -/
def WfbTx.zero : WfbTx := ⟨fun _ => none, fun _ => 0, 0⟩

/-- The variables of the loop. -/
structure InitLoop where
  numInterfaces : Nat
  result : Int
  tx : WfbTx

/-- The loop body, for interface `i`. An error is the `return 0` of the loop. -/
def initIface (f : TxIface) (i : Nat) (s : InitLoop) : Option (Except WfbTx InitLoop) :=
  match f.uevent with
  | none => some (.error s.tx)
  | some u => do
    let (line, read) := u.line f.stack
    let result := if read then s.result else -1
    let type := Function.update s.tx.type s.numInterfaces (driverType line)
    let fd ← wfbOpenSock f.sock
    let sock := Function.update s.tx.sock s.tx.count (some ⟨fd, i⟩)
    let count := if 0 < fd then s.tx.count + 1 else s.tx.count
    return .ok { s with result, tx := ⟨sock, type, count⟩ }

def initIfaces : List TxIface → Nat → InitLoop → Option (Except WfbTx InitLoop)
  | [], _, s => some (.ok s)
  | f :: fs, i, s =>
    if s.numInterfaces < nlMaxIfaces then
      match initIface f i s with
      | none => none
      | some (.error tx) => some (.error tx)
      | some (.ok s) => initIfaces fs (i + 1) s
    else some (.ok s)

/-- What `nl_get_wlan_rt_list` returns. -/
inductive WlanList where
  | failed (res : Int) (neg : res < 0)
  | found (ifs : List TxIface) (length_le : ifs.length ≤ nlMaxIfaces)

/-- `wfb_tx_init`: its result, and the variables it fills. -/
def WfbTx.wfbTxInit (b : TxBuffers) (tx : WfbTx) (list : WlanList) (port : Nat) (useCts : Bool) :
    Option (Int × WfbTx × TxBuffers) :=
  match list with
  | .failed res _ => some (res, tx, b)
  | .found ifs _ =>
    match initIfaces ifs 0 ⟨0, 0, tx⟩ with
    | none => none
    | some (.error tx) => some (0, tx, b)
    | some (.ok s) =>
      if s.result ≠ 0 then some (s.result, s.tx, b)
      else (Rhex.wfbTxInit b port useCts).map fun b => (0, s.tx, b)

/-! ## The sockets and the types -/

/-- The sockets that are kept, in the order of the interfaces. -/
def keptSocks : List TxIface → Nat → List TxSock
  | [], _ => []
  | f :: fs, i =>
    ((wfbOpenSock f.sock).toList.filter (0 < ·)).map (⟨·, i⟩) ++ keptSocks fs (i + 1)

theorem mem_keptSocks {ifs : List TxIface} {i : Nat} {e : TxSock} :
    e ∈ keptSocks ifs i ↔ ∃ j f, ifs[j]? = some f ∧ e.iface = i + j ∧
      wfbOpenSock f.sock = some e.fd ∧ 0 < e.fd := by
  induction ifs generalizing i with
  | nil => simp [keptSocks]
  | cons f fs ih =>
    rw [keptSocks, List.mem_append, ih]
    simp only [List.mem_map, List.mem_filter, Option.mem_toList, decide_eq_true_eq]
    constructor
    · rintro (⟨fd, ⟨hfd, hpos⟩, rfl⟩ | ⟨j, g, hg, hi, hfd, hpos⟩)
      · exact ⟨0, f, rfl, rfl, hfd, hpos⟩
      · exact ⟨j + 1, g, hg, by omega, hfd, hpos⟩
    · rintro ⟨j, g, hg, hi, hfd, hpos⟩
      cases j with
      | zero =>
        obtain rfl : f = g := by simpa using hg
        obtain rfl : i = e.iface := by omega
        exact .inl ⟨e.fd, ⟨hfd, hpos⟩, rfl⟩
      | succ j => exact .inr ⟨j, g, hg, by omega, hfd, hpos⟩

/-- Without a failure, the sockets stand in the order of the interfaces. -/
theorem getElem_keptSocks {ifs : List TxIface} {i : Nat}
    (h : ∀ f ∈ ifs, ∃ fd, wfbOpenSock f.sock = some fd ∧ 0 < fd) :
    (keptSocks ifs i).length = ifs.length ∧
      ∀ k e, (keptSocks ifs i)[k]? = some e → e.iface = i + k := by
  induction ifs generalizing i with
  | nil => exact ⟨rfl, fun k e he => by simp [keptSocks] at he⟩
  | cons f fs ih =>
    obtain ⟨hlen, hat⟩ := ih (i := i + 1) fun g hg => h g (List.mem_cons_of_mem f hg)
    obtain ⟨fd, hfd, hpos⟩ := h f List.mem_cons_self
    have hcons : keptSocks (f :: fs) i = ⟨fd, i⟩ :: keptSocks fs (i + 1) := by
      simp [keptSocks, hfd, hpos]
    rw [hcons]
    refine ⟨congrArg (· + 1) hlen, fun k e he => ?_⟩
    cases k with
    | zero =>
      obtain rfl : ⟨fd, i⟩ = e := by simpa using he
      rfl
    | succ k =>
      rw [hat k e he]
      omega

/-- The first sockets are the ones of the list. -/
structure WfbTx.Socks (tx : WfbTx) (l : List TxSock) : Prop where
  count : tx.count = l.length
  sock : ∀ k e, l[k]? = some e → tx.sock k = some e

/-- The types after some interfaces: each overwrites the first. -/
def typesAfter (ifs : List TxIface) (type : Nat → Nat) : Nat → Nat :=
  match ifs.getLast? with
  | none => type
  | some f => Function.update type 0 f.driver

/-- **One interface**: its type is the first, and its socket the next. -/
theorem initIface_ok {f : TxIface} {i : Nat} {s s' : InitLoop} {l : List TxSock}
    (hzero : s.numInterfaces = 0) (hs : s.tx.Socks l) (h : initIface f i s = some (.ok s')) :
    f.uevent.isSome ∧ s'.numInterfaces = 0 ∧ s'.tx.Socks (l ++ keptSocks [f] i) ∧
      s'.tx.type = Function.update s.tx.type 0 f.driver := by
  unfold initIface at h
  cases hu : f.uevent with
  | none => simp [hu] at h
  | some u =>
    simp only [hu, Option.bind_eq_bind, Option.bind_eq_some_iff, Option.pure_def,
      Option.some.injEq, Except.ok.injEq] at h
    obtain ⟨fd, hfd, rfl⟩ := h
    refine ⟨rfl, hzero, ?_, by simp only [hzero, TxIface.driver, hu]⟩
    have hcount := hs.count
    by_cases hpos : 0 < fd
    · have hkept : keptSocks [f] i = [⟨fd, i⟩] := by simp [keptSocks, hfd, hpos]
      rw [hkept]
      refine ⟨?_, fun k e he => ?_⟩
      · simp only [if_pos hpos, List.length_append, List.length_singleton, hcount]
      · rcases Nat.lt_or_ge k l.length with hk | hk
        · rw [List.getElem?_append_left hk] at he
          simp only [hcount, Function.update_of_ne hk.ne, hs.sock k e he]
        · rw [List.getElem?_append_right hk, List.getElem?_singleton] at he
          split_ifs at he with hlast
          obtain rfl : k = l.length := by omega
          simp only [hcount, Function.update_self, he]
    · have hkept : keptSocks [f] i = [] := by simp [keptSocks, hfd, hpos]
      rw [hkept, List.append_nil]
      refine ⟨by simp only [if_neg hpos, hcount], fun k e he => ?_⟩
      have hk := (List.getElem?_eq_some_iff.mp he).1
      simp only [hcount, Function.update_of_ne hk.ne, hs.sock k e he]

theorem initIface_error {f : TxIface} {i : Nat} {s : InitLoop} {tx : WfbTx}
    (h : initIface f i s = some (.error tx)) : f.uevent = none ∧ s.tx = tx := by
  cases hu : f.uevent with
  | none =>
    simp only [initIface, hu, Option.some.injEq, Except.error.injEq] at h
    exact ⟨rfl, h⟩
  | some u => simp [initIface, hu, Option.bind_eq_some_iff] at h

theorem keptSocks_cons (f : TxIface) (fs : List TxIface) (i : Nat) :
    keptSocks (f :: fs) i = keptSocks [f] i ++ keptSocks fs (i + 1) := by
  simp [keptSocks]

/-- **The loop.** Either it comes to its end, or to a file that cannot be opened. -/
theorem initIfaces_spec {ifs : List TxIface} {i : Nat} {s : InitLoop} {l : List TxSock}
    {r : Except WfbTx InitLoop} (hzero : s.numInterfaces = 0) (hs : s.tx.Socks l)
    (h : initIfaces ifs i s = some r) :
    (∃ s', r = .ok s' ∧ (∀ f ∈ ifs, f.uevent.isSome) ∧ s'.tx.Socks (l ++ keptSocks ifs i) ∧
      s'.tx.type = typesAfter ifs s.tx.type) ∨
    (∃ tx before f after, r = .error tx ∧ ifs = before ++ f :: after ∧ f.uevent = none ∧
      tx.Socks (l ++ keptSocks before i)) := by
  induction ifs generalizing i s l with
  | nil =>
    obtain rfl := Option.some.inj h
    exact .inl ⟨s, rfl, fun f hf => absurd hf List.not_mem_nil,
      by rwa [keptSocks, List.append_nil], rfl⟩
  | cons f fs ih =>
    rw [initIfaces, if_pos (by rw [hzero]; decide)] at h
    cases hstep : initIface f i s with
    | none => simp [hstep] at h
    | some r₁ =>
      cases r₁ with
      | error tx =>
        simp only [hstep, Option.some.injEq] at h
        obtain rfl := h
        obtain ⟨hu, htx⟩ := initIface_error hstep
        exact .inr ⟨tx, [], f, fs, rfl, rfl, hu, by rwa [← htx, keptSocks, List.append_nil]⟩
      | ok s₁ =>
        simp only [hstep] at h
        obtain ⟨hopened, hzero₁, hs₁, htype₁⟩ := initIface_ok hzero hs hstep
        obtain ⟨s', rfl, hall, hs', htype'⟩ | ⟨tx, before, g, after, rfl, rfl, hg, hs'⟩ :=
          ih hzero₁ hs₁ h
        · refine .inl ⟨s', rfl, List.forall_mem_cons.mpr ⟨hopened, hall⟩, ?_, ?_⟩
          · rwa [keptSocks_cons, ← List.append_assoc]
          · rw [htype', htype₁]
            simp only [typesAfter]
            cases fs with
            | nil => rfl
            | cons g gs =>
              rw [List.getLast?_cons_cons, List.getLast?_cons]
              exact Function.update_idem _ _ _
        · refine .inr ⟨tx, f :: before, g, after, rfl, rfl, hg, ?_⟩
          rwa [keptSocks_cons, ← List.append_assoc]

/-! ## The result -/

/-- A result of zero: the loop has come to its end and the headers are built, or the loop has
returned. -/
theorem wfbTxInit_zero {b bufs : TxBuffers} {ifs : List TxIface}
    {hlen : ifs.length ≤ nlMaxIfaces} {port : Nat} {useCts : Bool} {tx : WfbTx}
    (h : WfbTx.wfbTxInit b .zero (.found ifs hlen) port useCts = some (0, tx, bufs)) :
    (∃ s, initIfaces ifs 0 ⟨0, 0, .zero⟩ = some (.ok s) ∧ s.tx = tx ∧ bufs.Ready port useCts) ∨
      initIfaces ifs 0 ⟨0, 0, .zero⟩ = some (.error tx) := by
  simp only [WfbTx.wfbTxInit] at h
  cases hloop : initIfaces ifs 0 ⟨0, 0, .zero⟩ with
  | none => simp [hloop] at h
  | some r =>
    cases r with
    | error tx' =>
      simp only [hloop, Option.some.injEq, Prod.mk.injEq, true_and] at h
      exact .inr (by rw [h.1])
    | ok s =>
      obtain ⟨bufs', hinit, hready⟩ := wfbTxInit_ready b port useCts
      simp only [hloop, hinit] at h
      split_ifs at h with hresult
      · simp only [Option.some.injEq, Prod.mk.injEq] at h
        exact absurd h.1 hresult
      · simp only [Option.map_some, Option.some.injEq, Prod.mk.injEq, true_and] at h
        exact .inl ⟨s, rfl, h.1, h.2 ▸ hready⟩

/-- The transmitter can be used: each interface has its socket, each socket the type of its
interface, and the headers are built. -/
structure Usable (ifs : List TxIface) (port : Nat) (useCts : Bool) (tx : WfbTx) (bufs : TxBuffers) :
    Prop where
  opened : ∀ i < ifs.length, ∃ k < tx.count, ∃ e, tx.sock k = some e ∧ e.iface = i
  type : ∀ k < tx.count, ∃ e f, tx.sock k = some e ∧ ifs[e.iface]? = some f ∧
    tx.type k = f.driver
  headers : bufs.Ready port useCts

/-- All files are opened, all sockets are positive, and several cards are all of the type of
Ralink. -/
structure UsableWhen (ifs : List TxIface) : Prop where
  uevent : ∀ f ∈ ifs, f.uevent.isSome
  sock : ∀ f ∈ ifs, ∃ fd, wfbOpenSock f.sock = some fd ∧ 0 < fd
  driver : ifs.length ≤ 1 ∨ ∀ f ∈ ifs, f.driver = 0

/-- The sockets that are kept are those of all interfaces when none has failed. -/
theorem sock_of_opened {ifs : List TxIface} {tx : WfbTx} (hsocks : tx.Socks (keptSocks ifs 0))
    (h : ∀ i < ifs.length, ∃ k < tx.count, ∃ e, tx.sock k = some e ∧ e.iface = i) :
    ∀ f ∈ ifs, ∃ fd, wfbOpenSock f.sock = some fd ∧ 0 < fd := by
  intro f hf
  obtain ⟨i, hi, rfl⟩ := List.mem_iff_getElem.mp hf
  obtain ⟨k, hk, e, he, hiface⟩ := h i hi
  rw [hsocks.count] at hk
  have hsock := hsocks.sock k _ (List.getElem?_eq_getElem hk)
  obtain rfl := Option.some.inj (he.symm.trans hsock)
  obtain ⟨j, g, hg, hj, hfd, hpos⟩ := mem_keptSocks.mp (List.getElem_mem hk)
  obtain rfl : i = j := by omega
  obtain rfl : ifs[i] = g := by simpa [List.getElem?_eq_getElem hi] using hg
  exact ⟨_, hfd, hpos⟩

theorem sock_at {ifs : List TxIface} {tx : WfbTx} (hsocks : tx.Socks (keptSocks ifs 0))
    (h : ∀ f ∈ ifs, ∃ fd, wfbOpenSock f.sock = some fd ∧ 0 < fd) :
    tx.count = ifs.length ∧ ∀ k < ifs.length, ∃ e, tx.sock k = some e ∧ e.iface = k := by
  obtain ⟨hlength, hat⟩ := getElem_keptSocks (i := 0) h
  refine ⟨hsocks.count.trans hlength, fun k hk => ?_⟩
  have hget := List.getElem?_eq_getElem (hlength ▸ hk)
  exact ⟨_, hsocks.sock k _ hget, (hat k _ hget).trans (Nat.zero_add k)⟩

/-- The type of a card, when only the first is ever stored. -/
theorem typesAfter_eq_driver {ifs : List TxIface} :
    (∀ k f, ifs[k]? = some f → typesAfter ifs (fun _ => 0) k = f.driver) ↔
      ifs.length ≤ 1 ∨ ∀ f ∈ ifs, f.driver = 0 := by
  rcases List.eq_nil_or_concat ifs with rfl | ⟨init, last, rfl⟩
  · simp
  rw [List.concat_eq_append]
  have htypes : ∀ k, typesAfter (init ++ [last]) (fun _ => 0) k =
      if k = 0 then last.driver else 0 := by
    intro k
    simp only [typesAfter, List.getLast?_append, List.getLast?_singleton, Option.some_or,
      Function.update_apply]
  constructor
  · intro h
    cases init with
    | nil => exact .inl le_rfl
    | cons first rest =>
      -- The last of several types is stored as the first.
      have hlast := h (rest.length + 1) last (by simp)
      rw [htypes, if_neg (by omega)] at hlast
      refine .inr fun f hf => ?_
      obtain ⟨k, hk, rfl⟩ := List.mem_iff_getElem.mp hf
      rw [← h k _ (List.getElem?_eq_getElem hk), htypes]
      split_ifs
      · exact hlast.symm
      · rfl
  · rintro (hone | hall) k f hk
    · obtain ⟨hlt, hf⟩ := List.getElem?_eq_some_iff.mp hk
      simp only [List.length_append, List.length_singleton] at hone hlt
      obtain rfl : init = [] := List.eq_nil_of_length_eq_zero (by omega)
      obtain rfl : k = 0 := by simpa using hlt
      rw [htypes, if_pos rfl, ← hf]
      rfl
    · rw [htypes, hall f (List.mem_of_getElem? hk), hall last (by simp)]
      exact ite_self 0

/-- The loop has come to its end. -/
theorem usable_iff {ifs : List TxIface} {port : Nat} {useCts : Bool} {tx : WfbTx} {bufs : TxBuffers}
    (huevent : ∀ f ∈ ifs, f.uevent.isSome) (hsocks : tx.Socks (keptSocks ifs 0))
    (htype : tx.type = typesAfter ifs fun _ => 0) (hready : bufs.Ready port useCts) :
    Usable ifs port useCts tx bufs ↔ UsableWhen ifs := by
  constructor
  · rintro ⟨hopened, htypes, -⟩
    have hsock := sock_of_opened hsocks hopened
    obtain ⟨hcount, hat⟩ := sock_at hsocks hsock
    refine ⟨huevent, hsock, typesAfter_eq_driver.mp fun k f hk => ?_⟩
    have hlt := (List.getElem?_eq_some_iff.mp hk).1
    obtain ⟨e, g, he, hg, hdriver⟩ := htypes k (hcount ▸ hlt)
    obtain ⟨e', he', hiface⟩ := hat k hlt
    obtain rfl := Option.some.inj (he.symm.trans he')
    rw [hiface, hk] at hg
    obtain rfl := Option.some.inj hg
    rw [← hdriver, htype]
  · rintro ⟨-, hsock, hdriver⟩
    obtain ⟨hcount, hat⟩ := sock_at hsocks hsock
    refine ⟨fun i hi => ?_, fun k hk => ?_, hready⟩
    · obtain ⟨e, he, hiface⟩ := hat i hi
      exact ⟨i, hcount ▸ hi, e, he, hiface⟩
    · rw [hcount] at hk
      obtain ⟨e, he, hiface⟩ := hat k hk
      have hget := List.getElem?_eq_getElem hk
      refine ⟨e, ifs[k], he, by rw [hiface, hget], ?_⟩
      rw [htype]
      exact typesAfter_eq_driver.mpr hdriver k _ hget

theorem not_opened {before after : List TxIface} {f : TxIface} {tx : WfbTx}
    (hsocks : tx.Socks (keptSocks before 0)) :
    ¬∀ i < (before ++ f :: after).length, ∃ k < tx.count, ∃ e, tx.sock k = some e ∧
      e.iface = i := by
  intro hopened
  obtain ⟨k, hk, e, he, hiface⟩ := hopened before.length (by simp)
  rw [hsocks.count] at hk
  have hsock := hsocks.sock k _ (List.getElem?_eq_getElem hk)
  obtain rfl := Option.some.inj (he.symm.trans hsock)
  obtain ⟨j, g, hg, hj, -⟩ := mem_keptSocks.mp (List.getElem_mem hk)
  have hlt := (List.getElem?_eq_some_iff.mp hg).1
  omega

/-- **When `wfb_tx_init` returns zero, the transmitter can be used exactly if all files were opened,
all sockets are positive, and at most one card is not to be treated as a Ralink card alone.** -/
theorem wfbTxInit_usable {b bufs : TxBuffers} {ifs : List TxIface}
    (hlen : ifs.length ≤ nlMaxIfaces) {port : Nat} {useCts : Bool} {tx : WfbTx}
    (h : WfbTx.wfbTxInit b .zero (.found ifs hlen) port useCts = some (0, tx, bufs)) :
    Usable ifs port useCts tx bufs ↔ UsableWhen ifs := by
  have hstart : (⟨0, 0, .zero⟩ : InitLoop).tx.Socks [] := ⟨rfl, fun k e he => by simp at he⟩
  rcases wfbTxInit_zero h with ⟨s, hloop, rfl, hready⟩ | hloop
  · obtain ⟨s', hs, huevent, hsocks, htype⟩ | ⟨_, _, _, _, hs, -⟩ :=
      initIfaces_spec rfl hstart hloop
    · obtain rfl := Except.ok.inj hs
      rw [List.nil_append] at hsocks
      exact usable_iff huevent hsocks htype hready
    · cases hs
  · obtain ⟨_, hs, -⟩ | ⟨_, before, f, after, hs, rfl, hf, hsocks⟩ :=
      initIfaces_spec rfl hstart hloop
    · cases hs
    · obtain rfl := Except.error.inj hs
      rw [List.nil_append] at hsocks
      refine iff_of_false (fun husable => not_opened hsocks husable.opened) fun hwhen => ?_
      have hsome := hwhen.uevent f (by simp)
      rw [hf] at hsome
      cases hsome

/-- A card with the driver `ath9k_htc`. -/
def athIface : TxIface :=
  ⟨some ⟨some "DEVTYPE=usb_interface\n".toList, some "DRIVER=ath9k_htc\n".toList⟩, [], 5, 0, 0⟩

/-- A card with the driver `rt2800usb`. -/
def ralIface : TxIface :=
  ⟨some ⟨some "DEVTYPE=usb_interface\n".toList, some "DRIVER=rt2800usb\n".toList⟩, [], 6, 0, 0⟩

/-- Two cards that are treated alike. -/
theorem wfbTxInit_usable_two :
    ∃ tx bufs, WfbTx.wfbTxInit ⟨⟨0, fun _ => 0⟩, ⟨0, fun _ => 0⟩, ⟨0, fun _ => 0⟩⟩ .zero
        (.found [ralIface, ralIface] (by decide)) 1 false = some (0, tx, bufs) ∧
      tx.count = 2 ∧ Usable [ralIface, ralIface] 1 false tx bufs := by
  have hwhen : UsableWhen [ralIface, ralIface] := by
    refine ⟨by simp [ralIface], fun f hf => ⟨6, ?_, by decide⟩, .inr fun f hf => ?_⟩
    all_goals
      obtain rfl : f = ralIface := by simpa using hf
      decide
  exact ⟨_, _, rfl, rfl, (wfbTxInit_usable (by decide) rfl).mpr hwhen⟩

/-- An Atheros card and a Ralink card: the first is taken for a Ralink card, too. -/
theorem wfbTxInit_mistakes :
    ∃ tx bufs, WfbTx.wfbTxInit ⟨⟨0, fun _ => 0⟩, ⟨0, fun _ => 0⟩, ⟨0, fun _ => 0⟩⟩ .zero
        (.found [athIface, ralIface] (by decide)) 1 false = some (0, tx, bufs) ∧
      tx.sock 0 = some ⟨5, 0⟩ ∧ athIface.driver = 1 ∧ tx.type 0 = 0 ∧
      ¬Usable [athIface, ralIface] 1 false tx bufs := by
  refine ⟨_, _, rfl, rfl, by decide, by decide, fun h => ?_⟩
  obtain ⟨e, f, he, hf, htype⟩ := h.type 0 (by decide)
  obtain rfl : ⟨5, 0⟩ = e := Option.some.inj he
  obtain rfl : athIface = f := Option.some.inj hf
  exact absurd htype (by decide)

end Rhex
