import RustClash.Proxynet.Dial

/-!
# What a dial does

The acts of the parts of a dial, for any condition on acts: behind the layers of security
and transport the protocols do nothing but write, read and lay their own layers.
-/

namespace RustClash

/-- An act of a protocol, behind the layers of security and transport. -/
def DialAct.inner : DialAct → Bool
  | .httpObfs .. | .tlsObfs _ | .shadowed .. | .vlessResponse .. | .vision _ | .vmessAuth ..
  | .write _ => true
  | _ => false

namespace Dial

open Str Config Script

variable {crates : DialCrates} {draws : DialDraws} {P : DialAct → Prop} {Q : Unit → Prop}

/-! ## Layers -/

/-- The handshake follows only where the name of the server is one. -/
theorem emits_tlsWrap {sni : Str} {insecure : Bool} {alpn : List Str} :
    (tlsWrap crates sni insecure alpn).Emits P Q ↔
      P (.tls sni insecure alpn) ∧ (crates.serverName sni = true → P .tlsHandshake ∧ Q ()) := by
  rw [tlsWrap, emits_bind, emits_perform]
  split
  · next h => simp [h]
  · next h => simp [h]

/-- The handshake follows only where there is a ClientHello for the public key. -/
theorem emits_realityWrap {sni pbk : Str} {shortId : Option Str} {alpn : List Str} :
    (realityWrap crates draws sni pbk shortId alpn).Emits P Q ↔ P (.reality sni pbk shortId alpn) ∧
      ∀ hello, realityHello crates draws sni pbk shortId alpn = .ok hello →
        P (.realityHandshake hello) ∧ Q () := by
  simp [realityWrap]

/-- A transport upgrades the connection once, or not at all. -/
theorem emits_applyTransport {kind : TransportKind} {path : Option Str} {hostHeader : Str}
    (h : ∀ path webSocket, P (.upgrade path hostHeader webSocket)) (hQ : Q ()) :
    (applyTransport kind path hostHeader).Emits P Q := by
  cases kind with
  | rawTcp => exact emits_pure.mpr hQ
  | webSocket => exact emits_perform.mpr ⟨h _ _, hQ⟩
  | httpUpgrade => exact emits_perform.mpr ⟨h _ _, hQ⟩
  | unsupported => exact emits_fail.mpr trivial

/-! ## Protocols -/

section

variable (hP : ∀ {a : DialAct}, a.inner → P a)

include hP

/-- A request is written, and the layers of the response are put on it. -/
theorem emits_establishVless (o : VlessOptions) (host : Str) (port : UInt16) :
    (establishVless crates o host port).Emits P fun _ => True := by
  simp only [establishVless, emits_bind, emits_ofExcept, emits_perform]
  refine fun req _ => ⟨hP rfl, hP rfl, ?_⟩
  cases isVision o.flow with
  | true =>
      generalize Uuid.uuidWriteBe crates.primitives (String.ofList o.id) = uuid
      cases uuid with
      | none => exact emits_fail.mpr trivial
      | some uuid => exact emits_perform.mpr ⟨hP rfl, trivial⟩
  | false => exact emits_pure.mpr trivial

theorem emits_establishTrojan (o : TrojanOptions) (host : Str) (port : UInt16) :
    (establishTrojan crates o host port).Emits P fun _ => True := by
  simp only [establishTrojan, emits_bind, emits_ofExcept, emits_perform]
  exact fun req _ => ⟨hP rfl, trivial⟩

theorem emits_applyPlugin (plugin : Str) (o : SsOptions) (hQ : Q ()) :
    (applyPlugin plugin o).Emits P Q := by
  simp only [applyPlugin]
  split
  · exact emits_pure.mpr hQ
  · split
    · split
      · exact emits_perform.mpr ⟨hP rfl, hQ⟩
      · split
        · exact emits_perform.mpr ⟨hP rfl, hQ⟩
        · exact emits_fail.mpr trivial
    · exact emits_fail.mpr trivial

/-- A target that cannot be written is refused behind the cipher. -/
theorem emits_ssConnect (o : SsOptions) (host : Str) (port : UInt16) :
    (ssConnect o host port).Emits P fun _ => True := by
  unfold ssConnect
  split
  · exact emits_fail.mpr trivial
  · simp only [emits_bind, emits_ofExcept, emits_perform]
    exact ⟨hP rfl, fun header _ => ⟨hP rfl, trivial⟩⟩

theorem emits_dialSs (o : SsOptions) (host : Str) (port : UInt16) :
    (dialSs o host port).Emits P fun _ => True := by
  rw [dialSs, emits_bind, pluginLayer]
  split
  · exact emits_applyPlugin hP _ o (emits_ssConnect hP o host port)
  · exact emits_pure.mpr (emits_ssConnect hP o host port)

theorem emits_dialVmess (o : VmessOptions) (host : Str) (port : UInt16) :
    (dialVmess crates draws o host port).Emits P fun _ => True := by
  simp only [dialVmess, emits_bind, emits_ofExcept, emits_perform]
  exact fun security _ header _ => ⟨hP rfl, hP rfl, trivial⟩

/-- The answer to the selected method: nothing, or user name and password. -/
theorem emits_authenticate (user pass : Bytes) (method : UInt8) (hQ : Q ()) :
    (Socks.authenticate user pass method).Emits P Q := by
  unfold Socks.authenticate
  split
  · exact emits_pure.mpr hQ
  · split
    · split
      · exact emits_fail.mpr trivial
      · simp only [emits_bind, emits_perform, emits_readExact]
        refine ⟨hP rfl, fun resp _ => ?_⟩
        split
        · exact emits_pure.mpr hQ
        · exact emits_fail.mpr trivial
    · split
      · exact emits_fail.mpr trivial
      · exact emits_fail.mpr trivial

omit hP in
/-- What is read of the bound address depends on its type, and is never sent. -/
theorem emits_boundLength (atyp : UInt8) {R : Nat → Prop} (hR : ∀ n, R n) :
    (Socks.boundLength atyp).Emits P R := by
  unfold Socks.boundLength
  split
  · exact emits_pure.mpr (hR _)
  · split
    · exact emits_pure.mpr (hR _)
    · split
      · simp only [emits_bind, emits_readExact, emits_pure]
        exact fun _ _ => hR _
      · exact emits_fail.mpr trivial

omit hP in
theorem emits_reply (hQ : Q ()) : Socks.reply.Emits P Q := by
  simp only [Socks.reply, emits_bind, emits_readExact]
  refine fun head _ => ?_
  split
  · exact emits_fail.mpr trivial
  · rw [emits_bind]
    refine emits_boundLength _ fun rest => ?_
    simp only [emits_bind, emits_readExact, emits_pure]
    exact fun _ _ => hQ

theorem emits_dialSocks5 (o : SocksOptions) (host : Str) (port : UInt16) :
    (dialSocks5 o host port).Emits P fun _ => True := by
  simp only [dialSocks5, emits_bind, emits_perform, emits_readExact]
  refine ⟨hP rfl, fun sel _ => ?_⟩
  split
  · exact emits_fail.mpr trivial
  · rw [emits_bind]
    refine emits_authenticate hP _ _ _ ?_
    simp only [emits_bind, emits_ofExcept, emits_perform]
    exact fun addr _ => ⟨hP rfl, emits_reply trivial⟩

omit hP in
theorem emits_readHead {R : Bytes → Prop} (hR : ∀ buf, R buf) :
    ∀ (left : Nat) (buf : Bytes), (HttpConnect.readHead left buf).Emits P R
  | 0, buf => by
      rw [HttpConnect.readHead.eq_def, emits_bind, emits_readExact]
      refine fun b _ => ?_
      dsimp only
      split
      · exact emits_pure.mpr (hR _)
      · exact emits_fail.mpr trivial
  | left + 1, buf => by
      rw [HttpConnect.readHead.eq_def, emits_bind, emits_readExact]
      refine fun b _ => ?_
      dsimp only
      split
      · exact emits_pure.mpr (hR _)
      · exact emits_readHead hR left _

theorem emits_dialHttpConnect (o : HttpProxyOptions) (host : Str) (port : UInt16) :
    (dialHttpConnect crates o host port).Emits P fun _ => True := by
  simp only [dialHttpConnect, emits_bind, emits_perform]
  refine ⟨hP rfl, emits_readHead (fun buf => ?_) 8192 []⟩
  split
  · exact emits_pure.mpr trivial
  · exact emits_fail.mpr trivial

end

end Dial

end RustClash
