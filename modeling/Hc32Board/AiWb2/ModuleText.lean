import Hc32Board.AiWb2.Resolve
import Hc32Board.AiWb2.StaInfo

/-!
# Texts from the module

The texts that the Ai-WB2 driver takes from the responses of the module, and the
buffers they are stored in.  The names are `recv_ip` of `aiwb2_domain_resolve`
and `mac`, `ip`, `gateway`, `dns_server1` and `dns_server2` of
`aiwb2_get_netdev_info`.

A text arrives on one of two routes.

* The fields of `AT+STAINFO?` go through `aiwb2_split_fields` and a bounded
  copy.  They always fit.
* The others are stored by a scan set without a width, `%[^...]`.  What limits
  them is the response object alone, which is much larger than the buffer.

`module_text_fits_iff` says which responses fit.  The model stops behind the
last response: setting the network interface from the texts is not part of it.
-/

namespace Hc32Board.AiWb2

open Hc32Board.CodeLib
open Hc32Board.AtClient

/-! ## The network information -/

/-- The responses to the commands of `aiwb2_get_netdev_info`. -/
structure NetdevReplies where
  staInfo : Reply
  cipStaMac : Reply
  wsDhcp : Reply
  wDns : Reply

/-- The local variables of `aiwb2_get_netdev_info`, as texts.  `complete` tells
whether every response was parsed. -/
structure NetdevTexts where
  gateway : Bytes := []
  ip : Bytes := []
  mac : Bytes := []
  dnsServer1 : Bytes := []
  dnsServer2 : Bytes := []
  dhcpStat : Int := 0
  complete : Bool := false
deriving DecidableEq, Repr

/-- `mac` after `AT+CIPSTAMAC_DEF?`.  A failure leaves it as it was. -/
def cipStaMac (reply : Reply) (mac : Bytes) : Option Bytes :=
  match reply with
  | none => some mac
  | some lines =>
    match kwValue lines "+CIPSTAMAC_DEF:" with
    | none => some mac
    | some text => if text.length < atAddrLen then some text else none

/-- The format `+WDNS:%[^,],%[^,\r\n]`. -/
def wDnsFormat : List TextDirective :=
  literal "+WDNS:" ++ [.notIn [44], .char 44, .notIn [44, 13, 10]]

/-- `AT+WDNS?`, the last command. -/
def wDns (reply : Reply) (t : NetdevTexts) : Option NetdevTexts :=
  match reply with
  | none => some t
  | some lines =>
    match atRespParseTextsByKw lines "+WDNS:" wDnsFormat with
    | [] => some t
    | text :: texts =>
      if ∀ s ∈ text :: texts, s.length < atAddrLen then
        some { t with dnsServer1 := text, dnsServer2 := texts.headD [], complete := true }
      else none

/-- `AT+WSDHCP?` and what follows. -/
def wsDhcp (r : NetdevReplies) (t : NetdevTexts) : Option NetdevTexts :=
  match r.wsDhcp with
  | none => some t
  | some lines =>
    match atRespParseIntsByKw lines "+WSDHCP:" "+WSDHCP:%d" with
    | [] => some t
    | v :: _ => wDns r.wDns { t with dhcpStat := v }

/-- `aiwb2_get_netdev_info`, up to its last response.  The result is `none` if a
text was stored behind the end of its buffer. -/
def aiwb2GetNetdevInfo (respOk : Bool) (r : NetdevReplies) : Option NetdevTexts :=
  if !respOk then some {}
  else
    match r.staInfo with
    | none => some {}
    | some lines =>
      (staInfo lines).bind fun t =>
        (if t.ip = [] then cipStaMac r.cipStaMac t.mac else some t.mac).bind fun mac =>
          wsDhcp r { gateway := t.gateway, ip := t.ip, mac := mac }

/-! ## The IP -/

/-- The response shows an IP: status 3, and a text in the field for it. -/
def ipShown (lines : List Bytes) : Bool :=
  match lines.find? isInfoLine with
  | none => false
  | some line =>
    (lines.takeWhile (!isInfoLine ·)).foldl statusAfter 0 == 3 &&
      (fieldsOf line).getD (min 12 (fieldsOf line).length - 2) [] != []

theorem staTaken_length (fields : List Bytes) :
    (staTaken fields).gateway.length < atAddrLen ∧ (staTaken fields).ip.length < atAddrLen ∧
      (staTaken fields).mac.length < atAddrLen := by
  have hcut : ∀ text : Bytes, (text.take 31).length < atAddrLen := by
    intro text
    rw [List.length_take]
    exact (Nat.min_le_left _ _).trans_lt (by decide)
  refine ⟨hcut _, hcut _, ?_⟩
  rw [staTaken]
  dsimp only
  split_ifs
  · exact hcut _
  · decide

/-- The texts of `AT+STAINFO?` fit, and the IP is empty exactly if none is
shown. -/
theorem staInfo_spec (lines : List Bytes) :
    ∃ t, staInfo lines = some t ∧
      (t.gateway.length < atAddrLen ∧ t.ip.length < atAddrLen ∧ t.mac.length < atAddrLen) ∧
      (t.ip = [] ↔ ipShown lines = false) := by
  have hempty : ([] : Bytes).length < atAddrLen := by decide
  rw [ipShown]
  cases hfind : lines.find? isInfoLine with
  | none =>
    exact ⟨_, staInfo_of_find_none hfind, ⟨hempty, hempty, hempty⟩, iff_of_true rfl rfl⟩
  | some line =>
    refine ⟨_, staInfo_of_find_some hfind, ?_, ?_⟩
    · split_ifs
      · exact staTaken_length _
      · exact ⟨hempty, hempty, hempty⟩
    · dsimp only
      rw [← staStatus]
      split_ifs with hstatus
      · rw [hstatus]
        simp [staTaken, staInfoFieldMax]
      · simp [hstatus]

/-! ## Fitting texts -/

/-- Every text fits its buffer with a NUL. -/
structure NetdevTexts.Fit (t : NetdevTexts) : Prop where
  gateway : t.gateway.length < atAddrLen
  ip : t.ip.length < atAddrLen
  mac : t.mac.length < atAddrLen
  dnsServer1 : t.dnsServer1.length < atAddrLen
  dnsServer2 : t.dnsServer2.length < atAddrLen

/-- A value of `+CIPSTAMAC_DEF` has at most 31 characters. -/
def MacFits (reply : Reply) : Prop :=
  ∀ lines text, reply = some lines → kwValue lines "+CIPSTAMAC_DEF:" = some text →
    text.length < atAddrLen

/-- The texts of `+WDNS` have at most 31 characters. -/
def DnsFits (reply : Reply) : Prop :=
  ∀ lines, reply = some lines → ∀ text ∈ atRespParseTextsByKw lines "+WDNS:" wDnsFormat,
    text.length < atAddrLen

/-- The response gives a DHCP status. -/
def DhcpGiven (reply : Reply) : Prop :=
  ∃ lines, reply = some lines ∧ atRespParseIntsByKw lines "+WSDHCP:" "+WSDHCP:%d" ≠ []

/-- The responses that are asked for have texts that fit.  The MAC is asked for
if no IP is shown, and the DNS servers if there is a DHCP status. -/
def NetdevReplies.Fit (r : NetdevReplies) : Prop :=
  ∀ lines, r.staInfo = some lines →
    (ipShown lines = false → MacFits r.cipStaMac) ∧ (DhcpGiven r.wsDhcp → DnsFits r.wDns)

theorem cipStaMac_of_fits {reply : Reply} (hfit : MacFits reply) {mac : Bytes}
    (h : mac.length < atAddrLen) :
    ∃ mac', cipStaMac reply mac = some mac' ∧ mac'.length < atAddrLen := by
  unfold cipStaMac
  cases hreply : reply with
  | none => exact ⟨mac, rfl, h⟩
  | some lines =>
    dsimp only
    cases hval : kwValue lines "+CIPSTAMAC_DEF:" with
    | none => exact ⟨mac, rfl, h⟩
    | some text =>
      have hlen := hfit lines text hreply hval
      exact ⟨text, if_pos hlen, hlen⟩

theorem cipStaMac_of_not_fits {reply : Reply} (hfit : ¬ MacFits reply) (mac : Bytes) :
    cipStaMac reply mac = none := by
  unfold MacFits at hfit
  push Not at hfit
  obtain ⟨lines, text, rfl, hval, hlong⟩ := hfit
  rw [cipStaMac, hval]
  exact if_neg (Nat.not_lt.mpr hlong)

theorem wDns_of_not_fits {reply : Reply} (hfit : ¬ DnsFits reply) (t : NetdevTexts) :
    wDns reply t = none := by
  unfold DnsFits at hfit
  push Not at hfit
  obtain ⟨lines, rfl, text, hmem, hlong⟩ := hfit
  rw [wDns]
  cases htexts : atRespParseTextsByKw lines "+WDNS:" wDnsFormat with
  | nil =>
    rw [htexts] at hmem
    exact absurd hmem List.not_mem_nil
  | cons first texts =>
    rw [htexts] at hmem
    exact if_neg fun h => Nat.not_lt.mpr hlong (h text hmem)

theorem wDns_fits_iff (reply : Reply) {t : NetdevTexts} (h : t.Fit) :
    (∃ t', wDns reply t = some t' ∧ t'.Fit) ↔ DnsFits reply := by
  unfold wDns DnsFits
  cases reply with
  | none => exact iff_of_true ⟨t, rfl, h⟩ (fun lines hl => absurd hl (by simp))
  | some lines =>
    simp only [Option.some.injEq, forall_eq']
    cases htexts : atRespParseTextsByKw lines "+WDNS:" wDnsFormat with
    | nil => exact iff_of_true ⟨t, rfl, h⟩ (by simp)
    | cons text texts =>
      dsimp only
      constructor
      · rintro ⟨t', ht', -⟩
        by_contra hlong
        rw [if_neg hlong] at ht'
        exact absurd ht' (by simp)
      · intro hfit
        refine ⟨_, if_pos hfit, { h with
          dnsServer1 := hfit text List.mem_cons_self
          dnsServer2 := ?_ }⟩
        cases texts with
        | nil => exact Nat.zero_lt_succ _
        | cons text' texts => exact hfit text' (by simp)

theorem wsDhcp_of_not_fits {r : NetdevReplies} (hfit : ¬ (DhcpGiven r.wsDhcp → DnsFits r.wDns))
    (t : NetdevTexts) : wsDhcp r t = none := by
  rw [Classical.not_imp] at hfit
  obtain ⟨⟨lines, hlines, hne⟩, hdns⟩ := hfit
  rw [wsDhcp, hlines]
  dsimp only
  cases hval : atRespParseIntsByKw lines "+WSDHCP:" "+WSDHCP:%d" with
  | nil => exact absurd hval hne
  | cons v vs => exact wDns_of_not_fits hdns _

theorem wsDhcp_fits_iff (r : NetdevReplies) {t : NetdevTexts} (h : t.Fit) :
    (∃ t', wsDhcp r t = some t' ∧ t'.Fit) ↔ (DhcpGiven r.wsDhcp → DnsFits r.wDns) := by
  unfold wsDhcp DhcpGiven
  cases r.wsDhcp with
  | none => exact iff_of_true ⟨t, rfl, h⟩ (fun ⟨lines, hl, _⟩ => absurd hl (by simp))
  | some lines =>
    simp only [Option.some.injEq, exists_eq_left']
    cases hval : atRespParseIntsByKw lines "+WSDHCP:" "+WSDHCP:%d" with
    | nil => exact iff_of_true ⟨t, rfl, h⟩ (fun hne => absurd rfl hne)
    | cons v vs =>
      have hfit : NetdevTexts.Fit { t with dhcpStat := v } := { h with }
      rw [forall_prop_of_true (List.cons_ne_nil v vs)]
      exact wDns_fits_iff r.wDns hfit

theorem getNetdevInfo_fits_iff (r : NetdevReplies) :
    (∃ t, aiwb2GetNetdevInfo true r = some t ∧ t.Fit) ↔ r.Fit := by
  have hempty : NetdevTexts.Fit {} := by constructor <;> decide
  rw [aiwb2GetNetdevInfo, NetdevReplies.Fit, Bool.not_true, if_neg Bool.false_ne_true]
  cases r.staInfo with
  | none => exact iff_of_true ⟨_, rfl, hempty⟩ (fun lines hl => absurd hl (by simp))
  | some lines =>
    obtain ⟨t, ht, ⟨hgateway, hip, hmac⟩, hshown⟩ := staInfo_spec lines
    have hfit : ∀ {mac : Bytes}, mac.length < atAddrLen →
        NetdevTexts.Fit { gateway := t.gateway, ip := t.ip, mac := mac } := fun hm =>
      ⟨hgateway, hip, hm, hempty.dnsServer1, hempty.dnsServer2⟩
    simp only [Option.some.injEq, forall_eq', ht, Option.bind_some, ← hshown]
    by_cases hask : t.ip = [] ∧ ¬ MacFits r.cipStaMac
    · rw [if_pos hask.1, cipStaMac_of_not_fits hask.2]
      exact iff_of_false (by simp) fun h => hask.2 (h.1 hask.1)
    · rw [not_and, not_not] at hask
      obtain ⟨mac, heq, hlen⟩ : ∃ mac,
          (if t.ip = [] then cipStaMac r.cipStaMac t.mac else some t.mac) = some mac ∧
            mac.length < atAddrLen := by
        split_ifs with hnone
        · exact cipStaMac_of_fits (hask hnone) hmac
        · exact ⟨t.mac, rfl, hmac⟩
      rw [heq, Option.bind_some, wsDhcp_fits_iff r (hfit hlen)]
      exact (and_iff_right hask).symm

/-- A value of `+WDOMAIN` has at most fifteen characters. -/
def IpFits (reply : Reply) : Prop :=
  ∀ lines text, reply = some lines → kwValue lines "+WDOMAIN:" = some text →
    text.length < recvIpSize

/-- The tries store nothing behind the end of `recv_ip` exactly if each reply
that is waited for fits. -/
theorem resolveTries_fits_iff {reply : Nat → Reply} :
    ∀ (n i : Nat) {recvIp : Bytes}, recvIp.length < 8 →
      (resolveTries reply n i recvIp ≠ none ↔
        ∀ k < n, (∀ j < k, Short 8 (reply (i + j))) → IpFits (reply (i + k))) := by
  intro n
  induction n with
  | zero =>
    intro i recvIp _
    exact iff_of_true (by simp [resolveTries]) fun k hk => absurd hk (Nat.not_lt_zero k)
  | succ n ih =>
    intro i recvIp hold
    rw [forall_reached_succ]
    by_cases hshort : Short 8 (reply i)
    · obtain ⟨recvIp', hold', heq⟩ := resolveTries_short hshort n hold
      have hfits : IpFits (reply i) := by
        obtain ⟨lines, hlines, hlt⟩ := hshort
        intro lines' text hlines' hval
        obtain rfl := Option.some.inj (hlines.symm.trans hlines')
        exact (hlt text hval).trans (by decide)
      rw [heq, ih (i + 1) hold', forall_prop_of_true hshort]
      exact (and_iff_right hfits).symm
    · rw [forall_prop_of_false hshort, and_true, resolveTries, IpFits]
      cases hreply : reply i with
      | none => exact iff_of_true (by simp) fun lines text hl => absurd hl (by simp)
      | some lines =>
        -- the reply is not short, so it has a value of eight or more characters
        obtain ⟨text, hval, hlen⟩ :
            ∃ text : Bytes, kwValue lines "+WDOMAIN:" = some text ∧ ¬ text.length < 8 := by
          by_contra hnone
          push Not at hnone
          exact hshort ⟨lines, hreply, hnone⟩
        have hiff : (∀ lines' text', some lines = some lines' →
            kwValue lines' "+WDOMAIN:" = some text' → text'.length < recvIpSize) ↔
            text.length < recvIpSize := by
          refine ⟨fun h => h lines text rfl hval, fun h lines' text' hlines' hval' => ?_⟩
          obtain rfl := Option.some.inj hlines'
          obtain rfl := Option.some.inj (hval.symm.trans hval')
          exact h
        rw [hiff]
        dsimp only
        rw [hval]
        dsimp only
        rw [if_neg hlen]
        simp

/-- Every text fits its buffer exactly if the responses that the driver waits
for have values that fit. -/
theorem module_text_fits_iff (reply : Nat → Reply) (netdev : NetdevReplies) :
    ((∃ r, aiwb2DomainResolve true true reply = some r ∧ ∀ ip ∈ r.ip, ip.length < recvIpSize) ↔
        ∀ i < 5, (∀ j < i, Short 8 (reply j)) → IpFits (reply i)) ∧
    ((∃ t, aiwb2GetNetdevInfo true netdev = some t ∧ t.Fit) ↔ netdev.Fit) := by
  refine ⟨?_, getNetdevInfo_fits_iff netdev⟩
  have hfits : resolveTries reply resolveRetry 0 [] ≠ none ↔ _ :=
    resolveTries_fits_iff resolveRetry 0 (by decide)
  simp only [Nat.zero_add] at hfits
  rw [show (5 : Nat) = resolveRetry from rfl, ← hfits]
  show (∃ r, (resolveTries reply resolveRetry 0 []).map TryEnd.resolved = some r ∧ _) ↔ _
  constructor
  · rintro ⟨r, hr, -⟩ hnone
    rw [hnone] at hr
    exact absurd hr (by simp)
  · intro hne
    obtain ⟨e, he⟩ := Option.ne_none_iff_exists'.mp hne
    refine ⟨e.resolved, by rw [he, Option.map_some], fun ip hip => ?_⟩
    cases e with
    | cmdError => exact absurd hip (by simp [TryEnd.resolved])
    | exhausted recvIp => exact absurd hip (by simp [TryEnd.resolved])
    | found recvIp =>
      obtain rfl := Option.some.inj hip
      rw [List.length_take]
      exact (Nat.min_le_left _ _).trans_lt (by decide)

/-- A response object of this size can hold the lines. -/
def heldBy (size : Nat) (lines : List Bytes) : Bool :=
  ((lines.map (· ++ [10])).foldlM Resp.addLine (atCreateResp size 0)).isSome

/-- A text of 27 characters for an address, and a MAC and a DNS server of 35, are
stored behind the ends of their buffers. -/
theorem module_text_overruns :
    let domain := [ascii "+WDOMAIN:host not found in 5 seconds\r", ascii "OK\r"]
    let mac := [ascii "+CIPSTAMAC_DEF:28:bb:ed:43:78:e0:28:bb:ed:43:78:e0\r", ascii "OK\r"]
    let dns := [ascii "+WDNS:dns.example.example.example.example,0.0.0.0\r", ascii "OK\r"]
    (heldBy 128 domain && heldBy 512 mac && heldBy 512 dns) = true ∧
      aiwb2DomainResolve true true (fun _ => some domain) = none ∧
      aiwb2GetNetdevInfo true
        ⟨some [ascii "+STAINFO:1\r", ascii "OK\r"], some mac, none, none⟩ = none ∧
      aiwb2GetNetdevInfo true ⟨some [ascii "+STAINFO:1\r", ascii "OK\r"], none,
        some [ascii "+WSDHCP:1\r", ascii "OK\r"], some dns⟩ = none := by
  decide +kernel

end Hc32Board.AiWb2
