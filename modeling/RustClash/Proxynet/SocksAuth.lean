import RustClash.Lib.TlsHello
import RustClash.Proxynet.Dial

/-!
# Credentials of a SOCKS5 proxy

How a server reads the message with the user name and the password: a version and two
texts with a length of one byte before each.  The dial writes the low bytes of the lengths,
whatever they are.
-/

namespace RustClash

namespace Dial

open Str Config Script

/-- The user name and the password of a message with nothing behind them. -/
def parseCredentials : Bytes → Option (Bytes × Bytes)
  | 0x01 :: bs =>
      (Tls.takeVector 1 bs).bind fun (user, rest) => (Tls.onlyVector 1 rest).map (user, ·)
  | _ => none

theorem length_takeVector_lt {bs content rest : Bytes}
    (h : Tls.takeVector 1 bs = some (content, rest)) : content.length < 256 := by
  obtain ⟨⟨len, more⟩, hlen, htake⟩ := Option.bind_eq_some_iff.mp h
  rw [Tls.takeBytes] at hlen
  split at hlen
  · cases hlen
  next hlong =>
  cases hlen
  replace htake : Tls.takeBytes (ofBe (bs.take 1)) (bs.drop 1) = some (content, rest) := htake
  rw [Tls.takeBytes] at htake
  split at htake
  · cases htake
  · cases htake
    have hlt := ofBe_lt (bs.take 1)
    rw [List.length_take_of_le (Nat.not_lt.mp hlong)] at hlt
    exact Nat.lt_of_le_of_lt (List.length_take_le _ _) hlt

/-- The message is read back if and only if both lengths fit a byte. -/
theorem parseCredentials_iff (user pass : Bytes) :
    parseCredentials (Socks.credentials user pass) = some (user, pass) ↔
      user.length ≤ 255 ∧ pass.length ≤ 255 := by
  constructor
  · intro h
    obtain ⟨⟨user', rest⟩, huser, h⟩ := Option.bind_eq_some_iff.mp h
    obtain ⟨pass', hpass, heq⟩ := Option.map_eq_some_iff.mp h
    cases heq
    obtain ⟨⟨pass'', rest'⟩, hpass, honly⟩ := Option.bind_eq_some_iff.mp hpass
    replace honly : (if rest'.isEmpty then some pass'' else none) = some pass := honly
    split at honly
    · cases honly
      exact ⟨Nat.le_of_lt_succ (length_takeVector_lt huser),
        Nat.le_of_lt_succ (length_takeVector_lt hpass)⟩
    · cases honly
  · rintro ⟨huser, hpass⟩
    have hfront := Tls.takeVector_vector (show user.length < 256 ^ 1 by omega) (Tls.vector 1 pass)
    have hlast := Tls.onlyVector_vector (show pass.length < 256 ^ 1 by omega)
    have hmessage : Socks.credentials user pass =
        0x01 :: (Tls.vector 1 user ++ Tls.vector 1 pass) := rfl
    rw [hmessage]
    show (Tls.takeVector 1 _).bind _ = _
    rw [hfront]
    show (Tls.onlyVector 1 (Tls.vector 1 pass)).map _ = _
    rw [hlast]
    rfl

/-! ## Runs -/

/-- The message that is sent after the server has chosen user name and password. -/
def authMessage (p : Peer UInt8 ProxyError) : List DialAct → Option Bytes
  | .write _ :: .write message :: _ => if p.input.take 2 = [0x05, 0x02] then some message else none
  | _ => none

variable (o : SocksOptions)

/-- The user name of a node, as the dial takes it. -/
def socksUser : Bytes := bytes (o.username.getD [])

def socksPass : Bytes := bytes (o.password.getD [])

/-- Both texts have at most 255 bytes. -/
def Representable : Prop := (socksUser o).length ≤ 255 ∧ (socksPass o).length ≤ 255

/-- With this server the message that is sent says the user name and the password, and if they
cannot be said the dial fails without it. -/
structure Authenticates (host : Str) (port : UInt16) (p : Peer UInt8 ProxyError) : Prop where
  parses : ∀ message, authMessage p ((dialSocks5 o host port).run p).2 = some message →
    parseCredentials message = some (socksUser o, socksPass o)
  fails : ¬ Representable o → (∃ e, ((dialSocks5 o host port).run p).1 = .error e) ∧
    authMessage p ((dialSocks5 o host port).run p).2 = none

variable {o}

theorem authMessage_eq_some {p : Peer UInt8 ProxyError} {acts : List DialAct} {message : Bytes}
    (h : authMessage p acts = some message) :
    p.input.take 2 = [0x05, 0x02] ∧ (acts.drop 1).head? = some (.write message) := by
  unfold authMessage at h
  split at h
  · split at h
    · next hsel =>
        cases h
        exact ⟨hsel, rfl⟩
    · cases h
  · cases h

theorem head_run_act (a : DialAct) (k : Dial Unit) (p : Peer UInt8 ProxyError) :
    ((Script.act a k).run p).2.head? = some a := by
  rcases run_act a k p with ⟨e, he⟩ | ⟨p', hp⟩
  · rw [he]
    rfl
  · rw [hp]
    rfl

/-- The dial greets, reads the choice of the server, and goes on with the credentials if that is
their method. -/
theorem dialSocks5_shape (o : SocksOptions) (host : Str) (port : UInt16) :
    ∃ (greeting : Bytes) (k : Bytes → Dial Unit),
      dialSocks5 o host port = .act (.write greeting) (.read 2 k) ∧
      ((∃ e, k [0x05, 0x02] = .done (.error e)) ∨ ∃ more,
        k [0x05, 0x02] = .act (.write (Socks.credentials (socksUser o) (socksPass o))) more) := by
  refine ⟨_, _, rfl, ?_⟩
  show (∃ e, Script.bind _ (Socks.authenticate (socksUser o) (socksPass o) 0x02) = _) ∨ ∃ more,
    Script.bind _ (Socks.authenticate (socksUser o) (socksPass o) 0x02) = _
  rw [Socks.authenticate, if_neg (by decide), if_pos rfl]
  split
  · exact .inl ⟨_, rfl⟩
  · exact .inr ⟨_, rfl⟩

theorem run_chosen {host : Str} {port : UInt16} {p : Peer UInt8 ProxyError}
    (h : p.input.take 2 = [0x05, 0x02]) :
    (((dialSocks5 o host port).run p).2.drop 1).head? = none ∨
      (((dialSocks5 o host port).run p).2.drop 1).head? =
        some (.write (Socks.credentials (socksUser o) (socksPass o))) := by
  have hlen : ¬ p.input.length < 2 := by
    have hsize : min 2 p.input.length = 2 := List.length_take ▸ congrArg List.length h
    omega
  obtain ⟨greeting, k, heq, hk⟩ := dialSocks5_shape o host port
  rw [heq, Script.run]
  cases p.answers.head?.join with
  | some e => exact .inl rfl
  | none =>
      simp only [Script.run, if_neg hlen, h]
      rcases hk with ⟨e, he⟩ | ⟨more, hmore⟩
      · rw [he]
        exact .inl rfl
      · rw [hmore]
        exact .inr (head_run_act _ _ _)

theorem authMessage_run {host : Str} {port : UInt16} {p : Peer UInt8 ProxyError} {message : Bytes}
    (h : authMessage p ((dialSocks5 o host port).run p).2 = some message) :
    message = Socks.credentials (socksUser o) (socksPass o) := by
  obtain ⟨hsel, hhead⟩ := authMessage_eq_some h
  rcases run_chosen (o := o) hsel with hnone | hcreds
  · rw [hnone] at hhead
    cases hhead
  · rw [hcreds] at hhead
    cases hhead
    rfl

/-- Whoever may be dialed and whatever the server answers: each message that is sent says the user
name and the password exactly if both have at most 255 bytes, and no more is asked for exactly
then. -/
theorem authenticates_iff (o : SocksOptions) :
    ((∀ host port p, Authenticates o host port p) ↔ Representable o) ∧
      ∀ host port p message, authMessage p ((dialSocks5 o host port).run p).2 = some message →
        (parseCredentials message = some (socksUser o, socksPass o) ↔ Representable o) := by
  have hmessage : ∀ host port p message,
      authMessage p ((dialSocks5 o host port).run p).2 = some message →
        (parseCredentials message = some (socksUser o, socksPass o) ↔ Representable o) := by
    intro host port p message h
    rw [authMessage_run h]
    exact parseCredentials_iff _ _
  refine ⟨⟨fun h => ?_, fun h host port p => ?_⟩, hmessage⟩
  · by_contra hlong
    -- The server asks for no credentials and connects.
    obtain ⟨⟨e, he⟩, -⟩ := (h ['a'] 80 ⟨[], [5, 0, 5, 0, 0, 1, 0, 0, 0, 0, 0, 0],
      Socks.versionMismatch⟩).fails hlong
    have hok : ((dialSocks5 o ['a'] 80).run ⟨[], [5, 0, 5, 0, 0, 1, 0, 0, 0, 0, 0, 0],
        Socks.versionMismatch⟩).1 = .ok () := by
      rw [dialSocks5]
      rfl
    rw [hok] at he
    cases he
  · exact ⟨fun message hm => (hmessage host port p message hm).mpr h, fun hlong => absurd h hlong⟩

/-- A user name of 256 bytes is sent behind a length of 0. -/
theorem not_authenticates : ¬ ∀ o host port p, Authenticates o host port p := by
  intro h
  have hparses := (h ⟨some (List.replicate 256 'a'), some ['p']⟩ ['a'] 80
    ⟨[], [5, 2, 1, 0, 5, 0, 0, 1, 0, 0, 0, 0, 0, 0], Socks.versionMismatch⟩).parses
    (Socks.credentials (bytes (List.replicate 256 'a')) (bytes ['p'])) (by rw [dialSocks5]; rfl)
  have hfits := (parseCredentials_iff _ _).mp hparses
  have hlen : (bytes (List.replicate 256 'a')).length = 256 := by decide +kernel
  rw [hlen] at hfits
  exact absurd hfits.1 (by decide)

end Dial

end RustClash
