import Hc32Board.CodeLib.Run

/-!
# The addresses of the network interface

`aiwb2_netdev_set_addr_info`, `aiwb2_netdev_set_dhcp` and
`aiwb2_get_netdev_info` of `at_device_aiwb2.c`.  The netdev mirrors the station
configuration of the module.  A partial update sends a full `AT+WSDHCP=0`, with
the values of the netdev for what was not given.

The module has a mode and three addresses.  Only an `AT+WSDHCP` command that it
accepts changes them.  `AT+STAINFO?` reports its IP and its gateway, and there
is no query for the netmask: `aiwb2_get_netdev_info` writes 255.255.255.0 in
every mode.

`mirror_iff`: from a state in which the netdev and the module agree, they agree
in static mode in every later state, and no command replaces the netmask,
exactly if every refresh that gets to its end in static mode finds the module
with the netmask 255.255.255.0.

The texts of the addresses, the MAC and the DNS servers are left out.
-/

namespace Hc32Board.AiWb2.Netdev

open Hc32Board.CodeLib

abbrev IpAddr := BitVec 32

/-- `ip_addr`, `netmask` and `gw`. -/
structure Addrs where
  ip : IpAddr
  netmask : IpAddr
  gw : IpAddr
deriving DecidableEq, Repr

/-- An interface: the netdev, or the station of the module. -/
structure Station where
  dhcp : Bool
  addrs : Addrs
deriving DecidableEq, Repr

structure Mirror where
  netdev : Station
  module : Station
deriving DecidableEq, Repr

/-- `AT+WSDHCP=1`, or `AT+WSDHCP=0` with three addresses. -/
inductive WsDhcp where
  | enable
  | static (addrs : Addrs)
deriving DecidableEq, Repr

/-- The netmask that `aiwb2_get_netdev_info` falls back to: 255.255.255.0. -/
def defNetmask : IpAddr := 0xffffff00

/-- The answers of the module to the queries of `aiwb2_get_netdev_info`. -/
structure InfoEnv where
  respOk : Bool
  /-- `AT+STAINFO?` is answered. -/
  staInfo : Bool
  /-- The answer has status 3 and at least six fields. -/
  gotIp : Bool
  /-- `AT+WSDHCP?` is answered and parsed. -/
  wsDhcp : Bool
  /-- `AT+WDNS?` is answered and parsed. -/
  wDns : Bool
deriving DecidableEq, Repr

/-- The function gets to the write of the netdev. -/
def InfoEnv.complete (e : InfoEnv) : Bool := e.respOk && e.staInfo && e.wsDhcp && e.wDns

/-- A call.  `lease` are the addresses that the module has once it uses DHCP. -/
inductive AddrAct where
  /-- `respOk` is the memory for the response, `accepted` the reply of the
  module. -/
  | setAddrInfo (ip netmask gw : Option IpAddr) (respOk accepted : Bool)
  | setDhcp (isEnabled : Bool) (lease : Addrs) (respOk accepted : Bool)
  | getNetdevInfo (e : InfoEnv)
deriving DecidableEq, Repr

/-- The addresses with the given ones replaced. -/
def Addrs.update (a : Addrs) (ip netmask gw : Option IpAddr) : Addrs :=
  ⟨ip.getD a.ip, netmask.getD a.netmask, gw.getD a.gw⟩

/-- The station of the module after it took a command. -/
def WsDhcp.station (lease : Addrs) : WsDhcp → Station
  | .enable => ⟨true, lease⟩
  | .static addrs => ⟨false, addrs⟩

/-- The command that is sent, if any, and the state after the call. -/
structure Sent where
  cmd : Option WsDhcp
  state : Mirror
deriving DecidableEq, Repr

def aiwb2NetdevSetAddrInfo (s : Mirror) (ip netmask gw : Option IpAddr)
    (respOk accepted : Bool) : Sent :=
  -- `RT_ASSERT(ip_addr || netmask || gw)`
  if (ip.isSome || netmask.isSome || gw.isSome) && respOk then
    let addrs := s.netdev.addrs.update ip netmask gw
    let cmd := WsDhcp.static addrs
    if accepted then
      ⟨some cmd, ⟨{ s.netdev with addrs }, cmd.station s.module.addrs⟩⟩
    else ⟨some cmd, s⟩
  else ⟨none, s⟩

def aiwb2NetdevSetDhcp (s : Mirror) (isEnabled : Bool) (lease : Addrs)
    (respOk accepted : Bool) : Sent :=
  if respOk then
    let cmd := if isEnabled then WsDhcp.enable else .static s.netdev.addrs
    if accepted then
      ⟨some cmd, ⟨{ s.netdev with dhcp := isEnabled }, cmd.station lease⟩⟩
    else ⟨some cmd, s⟩
  else ⟨none, s⟩

def aiwb2GetNetdevInfo (s : Mirror) (e : InfoEnv) : Mirror :=
  if e.complete then
    -- The IP and the gateway keep their values unless they were reported.
    let ip := if e.gotIp then some s.module.addrs.ip else none
    let gw := if e.gotIp then some s.module.addrs.gw else none
    { s with netdev := ⟨s.module.dhcp, s.netdev.addrs.update ip (some defNetmask) gw⟩ }
  else s

def addrCall (s : Mirror) : AddrAct → Sent
  | .setAddrInfo ip netmask gw respOk accepted =>
    aiwb2NetdevSetAddrInfo s ip netmask gw respOk accepted
  | .setDhcp isEnabled lease respOk accepted => aiwb2NetdevSetDhcp s isEnabled lease respOk accepted
  | .getNetdevInfo e => ⟨none, aiwb2GetNetdevInfo s e⟩

def addrStep (s : Mirror) (a : AddrAct) : Mirror := (addrCall s a).state

/-! ## Agreement -/

/-- In static mode the netdev has the addresses of the module. -/
def Agree (s : Mirror) : Prop := s.module.dhcp = false → s.netdev.addrs = s.module.addrs

/-- The caller gives a netmask. -/
def AddrAct.givesNetmask : AddrAct → Bool
  | .setAddrInfo _ netmask _ _ _ => netmask.isSome
  | _ => false

/-- A static configuration that a call sends in static mode without a netmask of
its caller has the netmask of the module. -/
def KeepsNetmask (s : Mirror) (a : AddrAct) : Prop :=
  s.module.dhcp = false → a.givesNetmask = false →
    ∀ addrs, (addrCall s a).cmd = some (.static addrs) → addrs.netmask = s.module.addrs.netmask

/-- A refresh that gets to its end in static mode finds the netmask that it
writes. -/
def FindsNetmask (s : Mirror) : AddrAct → Prop
  | .getNetdevInfo e =>
    e.complete = true → s.module.dhcp = false → s.module.addrs.netmask = defNetmask
  | _ => True

section Steps

variable {s : Mirror} {ip netmask gw : Option IpAddr} {isEnabled respOk accepted : Bool}
  {lease : Addrs}

/-- A configuration that the module accepts is what the netdev has then. -/
theorem Agree.setAddrInfo (h : Agree s) :
    Agree (aiwb2NetdevSetAddrInfo s ip netmask gw respOk accepted).state := by
  unfold aiwb2NetdevSetAddrInfo
  split_ifs
  · exact fun _ => rfl
  · exact h
  · exact h

theorem Agree.setDhcp (h : Agree s) :
    Agree (aiwb2NetdevSetDhcp s isEnabled lease respOk accepted).state := by
  unfold aiwb2NetdevSetDhcp
  split_ifs
  · exact fun hstatic => absurd hstatic (by simp [WsDhcp.station])
  · exact h
  · exact fun _ => rfl
  · exact h
  · exact h

/-- A refresh reports the IP and the gateway and invents the netmask. -/
theorem agree_getNetdevInfo_iff (h : Agree s) (e : InfoEnv) :
    Agree (aiwb2GetNetdevInfo s e) ↔
      (e.complete = true → s.module.dhcp = false → s.module.addrs.netmask = defNetmask) := by
  unfold aiwb2GetNetdevInfo
  split_ifs with hcomplete hip
  · constructor
    · intro hafter _ hstatic
      exact (congrArg Addrs.netmask (hafter hstatic)).symm
    · intro hmask hstatic
      show Addrs.mk _ defNetmask _ = s.module.addrs
      rw [← hmask hcomplete hstatic]
      rfl
  · constructor
    · intro hafter _ hstatic
      exact (congrArg Addrs.netmask (hafter hstatic)).symm
    · intro hmask hstatic
      show Addrs.mk s.netdev.addrs.ip defNetmask s.netdev.addrs.gw = s.module.addrs
      rw [← hmask hcomplete hstatic, h hstatic]
  · exact ⟨fun _ hc => absurd hc hcomplete, fun _ => h⟩

theorem setAddrInfo_cmd {addrs : Addrs}
    (h : (aiwb2NetdevSetAddrInfo s ip netmask gw respOk accepted).cmd = some (.static addrs)) :
    addrs = s.netdev.addrs.update ip netmask gw := by
  unfold aiwb2NetdevSetAddrInfo at h
  split_ifs at h
  · exact (WsDhcp.static.inj (Option.some.inj h)).symm
  · exact (WsDhcp.static.inj (Option.some.inj h)).symm

theorem setDhcp_cmd {addrs : Addrs}
    (h : (aiwb2NetdevSetDhcp s isEnabled lease respOk accepted).cmd = some (.static addrs)) :
    addrs = s.netdev.addrs := by
  unfold aiwb2NetdevSetDhcp at h
  split_ifs at h
  · exact absurd h (by simp)
  · exact absurd h (by simp)
  · exact (WsDhcp.static.inj (Option.some.inj h)).symm
  · exact (WsDhcp.static.inj (Option.some.inj h)).symm

/-- Where the two agree, a full command repeats what the caller did not give. -/
theorem Agree.keepsNetmask (h : Agree s) (a : AddrAct) : KeepsNetmask s a := by
  intro hstatic hgives addrs hcmd
  cases a with
  | setAddrInfo ip netmask gw respOk accepted =>
    cases netmask with
    | some mask => cases hgives
    | none =>
      rw [setAddrInfo_cmd hcmd, ← h hstatic]
      rfl
  | setDhcp isEnabled lease respOk accepted => rw [setDhcp_cmd hcmd, h hstatic]
  | getNetdevInfo e => exact absurd hcmd (by simp [addrCall])

theorem agree_addrStep_iff (h : Agree s) (a : AddrAct) :
    Agree (addrStep s a) ↔ FindsNetmask s a := by
  cases a with
  | setAddrInfo ip netmask gw respOk accepted => exact ⟨fun _ => trivial, fun _ => h.setAddrInfo⟩
  | setDhcp isEnabled lease respOk accepted => exact ⟨fun _ => trivial, fun _ => h.setDhcp⟩
  | getNetdevInfo e => exact agree_getNetdevInfo_iff h e

end Steps

/-- From a state in which the netdev and the module agree, they agree after every
step of a run and no command replaces a netmask exactly if every refresh that
gets to its end in static mode finds the module with the netmask
255.255.255.0. -/
theorem mirror_iff (s : Mirror) (h : Agree s) (acts : List AddrAct) :
    Along addrStep (fun s a => KeepsNetmask s a ∧ Agree (addrStep s a)) s acts ↔
      Along addrStep FindsNetmask s acts := by
  refine along_iff_of_keeps (I := Agree) (H := fun _ _ => True) ?_ ?_ acts s h
    (along_of_forall (fun _ _ => trivial) acts s)
  · intro s a hs _
    rw [agree_addrStep_iff hs a]
    exact and_iff_right (hs.keepsNetmask a)
  · intro s a hs _ hfinds
    exact (agree_addrStep_iff hs a).mpr hfinds

/-- Every query is answered, and the station has its IP. -/
def InfoEnv.all : InfoEnv := ⟨true, true, true, true, true⟩

/-- 192.168.4.2 with the netmask `mask` and the gateway 192.168.4.1, without
DHCP. -/
def staticStation (mask : IpAddr) : Station := ⟨false, ⟨0xc0a80402, mask, 0xc0a80401⟩⟩

/-- A new IP in a network with the netmask 255.255.255.0, then a refresh. -/
theorem mirror_class_c :
    let s : Mirror := ⟨staticStation defNetmask, staticStation defNetmask⟩
    let acts : List AddrAct :=
      [.setAddrInfo (some 0xc0a80403) none none true true, .getNetdevInfo .all]
    Agree s ∧ Along addrStep (fun s a => KeepsNetmask s a ∧ Agree (addrStep s a)) s acts := by
  intro s acts
  have hs : Agree s := fun _ => rfl
  refine ⟨hs, (mirror_iff s hs acts).mpr ⟨trivial, ?_, trivial⟩⟩
  exact fun _ _ => rfl

/-- The user sets the netmask 255.255.0.0 and the module takes it.  A refresh
writes 255.255.255.0 to the netdev, and the next change of the gateway sends
that netmask to the module. -/
theorem netmask_replaced :
    let s : Mirror := ⟨staticStation defNetmask, staticStation defNetmask⟩
    let s₁ := run addrStep s
      [.setAddrInfo none (some 0xffff0000) none true true, .getNetdevInfo .all]
    let gwAct : AddrAct := .setAddrInfo none none (some 0xc0a804fe) true true
    s₁.module = staticStation 0xffff0000 ∧ s₁.netdev = staticStation defNetmask ∧
      (addrCall s₁ gwAct).cmd = some (.static ⟨0xc0a80402, defNetmask, 0xc0a804fe⟩) ∧
      (addrStep s₁ gwAct).module.addrs.netmask = defNetmask := by
  decide

end Hc32Board.AiWb2.Netdev
