import RustClash.Proxynet.Upgrade
import RustClash.Proxynet.Vless

/-!
# Where a handshake ends and the payload begins

The dials of a proxy read its answer in four ways: to the exact length, byte by byte, in large
pieces with a rest, and lazily in the stream itself.  The stream that they return delivers what
the peer sends behind its answer, from the first byte on, however the bytes come in.
-/

namespace RustClash

open Str Config Script

namespace Dial

/-! ## Dials over a transport -/

/-- Only what is sent is done on the transport, a write with the flush behind it. -/
def actOn (a : DialAct) (t : Transport) : Except ProxyError Unit × Transport :=
  match a with
  | .write bs => let (r, t) := t.send bs; (r.mapError TlsRecordStream.ofIo, t)
  | _ => (.ok (), t)

def takeFrom (n : Nat) (t : Transport) : Except ProxyError Bytes × Transport :=
  let (r, t) := t.readBytes n
  (r.mapError TlsRecordStream.ofIo, t)

/-- The transport that a dial leaves. -/
def playedOn (s : Dial Unit) (t : Transport) : Except ProxyError Transport :=
  match s.play actOn takeFrom t with
  | (.ok (), t) => .ok t
  | (.error e, _) => .error e

theorem actOn_keeps (a : DialAct) (t : Transport) :
    (actOn a t).2.reads = t.reads ∧ (actOn a t).2.readEnd = t.readEnd := by
  cases a with
  | write bs => exact t.send_keeps bs
  | _ => exact ⟨rfl, rfl⟩

theorem actOn_willing (a : DialAct) {t : Transport} (h : t.writes = []) :
    (actOn a t).1 = .ok () ∧ (actOn a t).2.writes = [] := by
  cases a with
  | write bs =>
      obtain ⟨hok, hwrites⟩ := Transport.send_willing bs h
      refine ⟨?_, hwrites⟩
      show (t.send bs).1.mapError _ = _
      rw [hok]
      rfl
  | _ => exact ⟨rfl, h⟩

/-- What a dial keeps of its transport: the end, and that it takes all writes. -/
def Keeps (o : End IoError) (willing : Prop) (t : Transport) : Prop :=
  t.readEnd = o ∧ (willing → t.writes = [])

theorem plays (o : End IoError) (willing : Prop) :
    Plays actOn takeFrom (fun t => unread t.reads) (Keeps o willing) where
  acts a t h := by
    obtain ⟨hreads, hend⟩ := actOn_keeps a t
    exact ⟨by rw [hreads], hend.trans h.1, fun hw => (actOn_willing a (h.2 hw)).2⟩
  reads n t h hn := by
    obtain ⟨hok, hrest, hend, hwrites⟩ := (t.readBytes_took n).enough hn
    refine ⟨(t.readBytes n).2, ?_, hrest, hend.trans h.1, fun hw => hwrites.trans (h.2 hw)⟩
    show ((t.readBytes n).1.mapError _, _) = _
    rw [hok]
    rfl
  short n t _ hn := by
    obtain ⟨e, he⟩ := (t.readBytes_took n).short hn
    refine ⟨TlsRecordStream.ofIo e, ?_⟩
    show (t.readBytes n).1.mapError _ = _
    rw [he]
    rfl

theorem reading_of_playedOn {s : Dial Unit} {t t' : Transport} (h : playedOn s t = .ok t') :
    s.reading (unread t.reads) = some (.ok (), unread t'.reads) ∧ t'.readEnd = t.readEnd := by
  rw [playedOn] at h
  split at h
  · next hplay =>
      cases h
      obtain ⟨hreading, hend, -⟩ :=
        reading_of_play (plays t.readEnd False) ⟨rfl, False.elim⟩ hplay
      exact ⟨hreading, hend⟩
  · cases h

theorem playedOn_of_reading {s : Dial Unit} {t : Transport} {rest : Bytes} (hw : t.writes = [])
    (h : s.reading (unread t.reads) = some (.ok (), rest)) : ∃ t', playedOn s t = .ok t' := by
  obtain ⟨t', hplay, -⟩ := play_of_reading (plays t.readEnd True)
    (fun a t h => (actOn_willing a (h.2 trivial)).1) ⟨rfl, fun _ => hw⟩ h
  exact ⟨t', by rw [playedOn, hplay]⟩

/-! ## What a SOCKS5 server answers -/

/-- The type of the bound address, the address, and its port. -/
inductive BoundAddress : Bytes → Prop
  | ipv4 (addr : Bytes) : addr.length = 4 + 2 → BoundAddress (0x01 :: addr)
  | ipv6 (addr : Bytes) : addr.length = 16 + 2 → BoundAddress (0x04 :: addr)
  | domain (len : UInt8) (addr : Bytes) : addr.length = len.toNat + 2 →
      BoundAddress (0x03 :: len :: addr)

/-- The choice of a method, the answer to the credentials if they are asked for, and the reply. -/
inductive SocksResponse (user : Bytes) : Bytes → Prop
  | plain (reserved : UInt8) (bound : Bytes) : BoundAddress bound →
      SocksResponse user ([0x05, 0x00] ++ ([0x05, 0x00, reserved] ++ bound))
  | credentials (version reserved : UInt8) (bound : Bytes) : user.isEmpty = false →
      BoundAddress bound →
      SocksResponse user
        ([0x05, 0x02] ++ ([version, 0x00] ++ ([0x05, 0x00, reserved] ++ bound)))

variable {bs rest : Bytes}

theorem eq_pair {l : Bytes} (h : l.length = 2) : l = [l.getD 0 0, l.getD 1 0] := by
  match l, h with
  | [_, _], _ => rfl

theorem eq_four {l : Bytes} (h : l.length = 4) :
    l = [l.getD 0 0, l.getD 1 0, l.getD 2 0, l.getD 3 0] := by
  match l, h with
  | [_, _, _, _], _ => rfl

theorem reading_reply {reserved : UInt8} {bound : Bytes} (h : BoundAddress bound) :
    Socks.reply.reading ([0x05, 0x00, reserved] ++ bound ++ rest) = some (.ok (), rest) := by
  have hhead (atyp : UInt8) (more : Bytes) :
      (readExact 4 : Dial Bytes).reading ([0x05, 0x00, reserved, atyp] ++ more) =
        some (.ok [0x05, 0x00, reserved, atyp], more) := reading_readExact_append _
  have hskip {addr : Bytes} {n : Nat} (hn : addr.length = n) :
      ((readExact n : Dial Bytes) >>= fun _ => pure ()).reading (addr ++ rest) =
        some (.ok (), rest) := by
    subst hn
    rw [reading_bind_ok (reading_readExact_append addr)]
    rfl
  cases h with
  | ipv4 addr hlen =>
      rw [Socks.reply]
      refine (reading_bind_ok (hhead 0x01 (addr ++ rest))).trans ?_
      rw [if_neg (by simp)]
      exact hskip hlen
  | ipv6 addr hlen =>
      rw [Socks.reply]
      refine (reading_bind_ok (hhead 0x04 (addr ++ rest))).trans ?_
      rw [if_neg (by simp)]
      exact hskip hlen
  | domain len addr hlen =>
      rw [Socks.reply]
      refine (reading_bind_ok (hhead 0x03 (len :: addr ++ rest))).trans ?_
      rw [if_neg (by simp)]
      have hbound : (Socks.boundLength 0x03).reading ([len] ++ (addr ++ rest)) =
          some (.ok (len.toNat + 2), addr ++ rest) := by
        refine (reading_bind_ok (reading_readExact_append [len])).trans ?_
        rfl
      exact (reading_bind_ok hbound).trans (hskip hlen)

theorem reply_of_reading (h : Socks.reply.reading bs = some (.ok (), rest)) :
    ∃ reserved bound, BoundAddress bound ∧ bs = [0x05, 0x00, reserved] ++ bound ++ rest := by
  rw [Socks.reply] at h
  obtain ⟨head, rest₁, hhead, htail⟩ := reading_bind_eq_ok h
  obtain ⟨hlen, hbs⟩ := reading_readExact_eq_ok hhead
  split at htail
  · cases htail
  · next hok =>
      rw [not_or, not_not, not_not] at hok
      obtain ⟨n, rest₂, hbound, htail⟩ := reading_bind_eq_ok htail
      obtain ⟨addr, rest₃, hskip, hend⟩ := reading_bind_eq_ok htail
      cases hend
      obtain ⟨hn, hrest⟩ := reading_readExact_eq_ok hskip
      have hfour := eq_four hlen
      rw [hok.1, hok.2] at hfour
      generalize head.getD 3 0 = atyp at hbound hfour
      rw [hbs, hfour]
      rw [Socks.boundLength] at hbound
      split at hbound
      · next htype =>
          cases hbound
          rw [htype, hrest]
          exact ⟨head.getD 2 0, _, .ipv4 addr hn, rfl⟩
      · split at hbound
        · next htype =>
            cases hbound
            rw [htype, hrest]
            exact ⟨head.getD 2 0, _, .ipv6 addr hn, rfl⟩
        · split at hbound
          · next htype =>
              obtain ⟨len, rest₄, hlen', hlast⟩ := reading_bind_eq_ok hbound
              cases hlast
              obtain ⟨hone, hrest₁⟩ := reading_readExact_eq_ok hlen'
              obtain ⟨b, hb⟩ := List.length_eq_one_iff.mp hone
              rw [hb] at hn hrest₁
              rw [htype, hrest₁, hrest]
              exact ⟨head.getD 2 0, _, .domain b addr hn, rfl⟩
          · cases hbound

theorem reading_authenticate_iff {user pass : Bytes} {method : UInt8} :
    (Socks.authenticate user pass method).reading bs = some (.ok (), rest) ↔
      (method = 0x00 ∧ bs = rest) ∨
      (method = 0x02 ∧ user.isEmpty = false ∧ ∃ version, bs = [version, 0x00] ++ rest) := by
  rw [Socks.authenticate]
  split
  · next hm =>
      subst hm
      constructor
      · intro h
        cases h
        exact .inl ⟨rfl, rfl⟩
      · rintro (⟨-, rfl⟩ | ⟨h, -⟩)
        · rfl
        · cases h
  · next hm =>
      split
      · next hm' =>
          subst hm'
          split
          · next huser =>
              constructor
              · intro h
                cases h
              · rintro (⟨h, -⟩ | ⟨-, h, -⟩)
                · cases h
                · rw [huser] at h
                  cases h
          · next huser =>
              constructor
              · intro h
                obtain ⟨u, rest₀, hsent, hanswer⟩ := reading_bind_eq_ok h
                cases hsent
                obtain ⟨resp, rest₁, hresp, hlast⟩ := reading_bind_eq_ok hanswer
                obtain ⟨hlen, hbs⟩ := reading_readExact_eq_ok hresp
                split at hlast
                · next hok =>
                    cases hlast
                    have hpair := eq_pair hlen
                    rw [hok] at hpair
                    rw [hpair] at hbs
                    exact .inr ⟨rfl, by simpa using huser, _, hbs⟩
                · cases hlast
              · rintro (⟨h, -⟩ | ⟨-, -, version, rfl⟩)
                · cases h
                · refine (reading_bind_ok reading_perform).trans ?_
                  exact reading_bind_ok (reading_readExact_append [version, 0x00])
      · next hm' =>
          constructor
          · intro h
            split at h <;> cases h
          · rintro (⟨h, -⟩ | ⟨h, -⟩)
            · exact absurd h hm
            · exact absurd h hm'

variable {o : SocksOptions} {host : Str} {port : UInt16}

/-- A dial over SOCKS5 succeeds on an answer that is complete, and reads nothing more. -/
theorem reading_dialSocks5_iff :
    (dialSocks5 o host port).reading bs = some (.ok (), rest) ↔
      (∃ addr, ProxyAddress.writeSocksPortLast (String.ofList host) port
        (2 + ProxyAddress.maxLength) = .ok addr) ∧
      ∃ resp, SocksResponse (bytes (o.username.getD [])) resp ∧ bs = resp ++ rest := by
  rw [dialSocks5]
  constructor
  · intro h
    obtain ⟨u, rest₀, hsent, h₀⟩ := reading_bind_eq_ok h
    cases hsent
    obtain ⟨sel, rest₁, hsel, h₁⟩ := reading_bind_eq_ok h₀
    obtain ⟨hlen, hbs⟩ := reading_readExact_eq_ok hsel
    split at h₁
    · cases h₁
    · next hversion =>
        rw [not_not] at hversion
        have hpair := eq_pair hlen
        rw [hversion] at hpair
        obtain ⟨u', rest₂, hauth, h₂⟩ := reading_bind_eq_ok h₁
        obtain ⟨addr, rest₃, haddr, h₃⟩ := reading_bind_eq_ok h₂
        obtain ⟨haddr, hrest₂⟩ := Prod.mk.inj (Option.some.inj haddr)
        obtain ⟨u'', rest₄, hsent, h₄⟩ := reading_bind_eq_ok h₃
        cases hsent
        obtain ⟨reserved, bound, hbound, hrest₃⟩ := reply_of_reading h₄
        refine ⟨⟨addr, haddr⟩, ?_⟩
        rw [hbs, hpair]
        rcases reading_authenticate_iff.mp hauth with ⟨hm, hrest₁⟩ | ⟨hm, huser, version, hrest₁⟩
        · rw [hm, hrest₁, hrest₂, hrest₃]
          exact ⟨_, .plain reserved bound hbound, rfl⟩
        · rw [hm, hrest₁, hrest₂, hrest₃]
          refine ⟨_, .credentials version reserved bound huser hbound, ?_⟩
          simp only [List.append_assoc]
  · rintro ⟨⟨addr, haddr⟩, resp, hresp, rfl⟩
    refine (reading_bind_ok reading_perform).trans ?_
    have hlast {reserved : UInt8} {bound : Bytes} (hbound : BoundAddress bound) :
        ((ofExcept (ProxyAddress.writeSocksPortLast (String.ofList host) port
            (2 + ProxyAddress.maxLength)) : Dial Bytes) >>= fun addr =>
          perform (.write ([0x05, 0x01, 0x00] ++ addr)) >>= fun _ => Socks.reply).reading
            ([0x05, 0x00, reserved] ++ bound ++ rest) = some (.ok (), rest) := by
      rw [haddr]
      exact reading_reply hbound
    cases hresp with
    | plain reserved bound hbound =>
        refine (reading_bind_ok (reading_readExact_append [0x05, 0x00])).trans ?_
        rw [if_neg (by simp)]
        refine (reading_bind_ok (reading_authenticate_iff.mpr (.inl ⟨rfl, rfl⟩))).trans ?_
        exact hlast hbound
    | credentials version reserved bound huser hbound =>
        refine (reading_bind_ok (reading_readExact_append [0x05, 0x02])).trans ?_
        rw [if_neg (by simp)]
        refine (reading_bind_ok (reading_authenticate_iff.mpr
          (.inr ⟨rfl, huser, version, rfl⟩))).trans ?_
        exact hlast hbound

/-! ## What an HTTP proxy answers -/

theorem headComplete_eq : ∀ bs : Bytes,
    HttpConnect.headComplete bs = (HttpObfs.findHeaderEnd bs).isSome
  | [] => rfl
  | b :: bs => by
      have ih := headComplete_eq bs
      rw [HttpConnect.headComplete] at ih ⊢
      rw [List.tails_cons, List.any_cons, ih, HttpObfs.findHeaderEnd]
      split
      · next hpre => rw [hpre, Bool.true_or]; rfl
      · next hpre => rw [Bool.eq_false_iff.mpr hpre, Bool.false_or, Option.isSome_map]

/-- A header ends in its empty line and has none before. -/
theorem headerBlock_iff {block : Bytes} : HttpObfs.HeaderBlock block ↔
    HttpConnect.headComplete block = true ∧
      ∀ n < block.length, HttpConnect.headComplete (block.take n) = false := by
  constructor
  · intro h
    have hend := h.findHeaderEnd []
    rw [List.append_nil] at hend
    refine ⟨by rw [headComplete_eq, hend]; rfl, fun n hn => ?_⟩
    have hne : block.drop n ≠ [] := by
      rw [← List.length_pos_iff, List.length_drop]
      omega
    rw [headComplete_eq, h.findHeaderEnd_part (List.take_append_drop n block) hne]
    rfl
  · rintro ⟨hend, hbefore⟩
    rw [headComplete_eq] at hend
    obtain ⟨n, hn⟩ := Option.isSome_iff_exists.mp hend
    obtain ⟨hblock, hle⟩ := Upgrade.findHeaderEnd_block hn
    rcases Nat.lt_or_ge n block.length with hlt | hge
    · have hpart := hbefore n hlt
      have hfind := hblock.findHeaderEnd []
      rw [List.append_nil] at hfind
      rw [headComplete_eq, hfind] at hpart
      cases hpart
    · rwa [List.take_of_length_le hge] at hblock

/-- Reading on from `buf` ends where the header does, if that is not too far. -/
theorem reading_readHead_iff : ∀ {left : Nat} {buf bs head rest : Bytes},
    (HttpConnect.readHead left buf).reading bs = some (.ok head, rest) ↔
      ∃ front, head = buf ++ front ∧ bs = front ++ rest ∧ front ≠ [] ∧ front.length ≤ left + 1 ∧
        HttpConnect.headComplete (buf ++ front) = true ∧
        ∀ n < front.length, 0 < n → HttpConnect.headComplete (buf ++ front.take n) = false
  | left, buf, [], head, rest => by
      rw [HttpConnect.readHead.eq_def]
      constructor
      · intro h
        cases h
      · rintro ⟨front, -, hnil, hne, -⟩
        exact absurd (List.append_eq_nil_iff.mp hnil.symm).1 hne
  | left, buf, b :: bs, head, rest => by
      have hread : (readExact 1 : Dial Bytes).reading ([b] ++ bs) = some (.ok [b], bs) :=
        reading_readExact_append [b]
      rw [HttpConnect.readHead.eq_def]
      have hstep {f : Bytes → Dial Bytes} : ((readExact 1 : Dial Bytes) >>= f).reading (b :: bs) =
          (f [b]).reading bs := reading_bind_ok hread
      rw [hstep]
      dsimp only
      cases hcomplete : HttpConnect.headComplete (buf ++ [b]) with
      | true =>
          rw [if_pos rfl]
          constructor
          · intro h
            cases h
            refine ⟨[b], rfl, rfl, List.cons_ne_nil _ _, by simp, hcomplete, fun n hn hpos => ?_⟩
            rw [List.length_singleton] at hn
            omega
          · rintro ⟨front, rfl, hbs, hne, -, -, hbefore⟩
            obtain ⟨c, front, rfl⟩ := List.exists_cons_of_ne_nil hne
            obtain ⟨rfl, rfl⟩ := List.cons.inj hbs
            cases front with
            | nil => rfl
            | cons c front =>
                have hfalse := hbefore 1 (by simp) Nat.one_pos
                rw [List.take_succ_cons, List.take_zero, hcomplete] at hfalse
                cases hfalse
      | false =>
          rw [if_neg Bool.false_ne_true]
          cases left with
          | zero =>
              constructor
              · intro h
                cases h
              · rintro ⟨front, -, hbs, hne, hlen, hend, -⟩
                obtain ⟨c, front, rfl⟩ := List.exists_cons_of_ne_nil hne
                obtain ⟨rfl, rfl⟩ := List.cons.inj hbs
                have hnil : front = [] := List.length_eq_zero_iff.mp (by simpa using hlen)
                rw [hnil, hcomplete] at hend
                cases hend
          | succ left =>
              dsimp only
              rw [reading_readHead_iff]
              have hassoc (x : Bytes) : buf ++ [b] ++ x = buf ++ b :: x := by simp
              constructor
              · rintro ⟨front, rfl, rfl, hne, hlen, hend, hbefore⟩
                refine ⟨b :: front, hassoc front, rfl, List.cons_ne_nil _ _, by simpa using hlen,
                  hassoc front ▸ hend, fun n hn hpos => ?_⟩
                obtain ⟨m, rfl⟩ := Nat.exists_eq_succ_of_ne_zero (Nat.ne_of_gt hpos)
                rw [List.take_succ_cons]
                rcases Nat.eq_zero_or_pos m with rfl | hm
                · exact hcomplete
                · rw [← hassoc]
                  exact hbefore m (by simpa using hn) hm
              · rintro ⟨front, rfl, hbs, hne, hlen, hend, hbefore⟩
                obtain ⟨c, front, rfl⟩ := List.exists_cons_of_ne_nil hne
                obtain ⟨rfl, rfl⟩ := List.cons.inj hbs
                refine ⟨front, (hassoc front).symm, rfl, ?_, by simpa using hlen,
                  (hassoc front).symm ▸ hend, fun n hn hpos => ?_⟩
                · rintro rfl
                  rw [hcomplete] at hend
                  cases hend
                · have hnext := hbefore (n + 1) (by simpa using hn) (Nat.succ_pos n)
                  rwa [List.take_succ_cons, ← hassoc] at hnext

/-- The header of an answer that the dial takes for a success. -/
def HttpResponse (head : Bytes) : Prop :=
  HttpObfs.HeaderBlock head ∧
    contains " 200".toList (HttpConnect.firstLine (fromUtf8Lossy head)) = true

variable {crates : DialCrates} {p : HttpProxyOptions}

/-- A dial over HTTP succeeds on a header that is complete, and reads nothing more. -/
theorem reading_dialHttpConnect_iff :
    (dialHttpConnect crates p host port).reading bs = some (.ok (), rest) ↔
      ∃ head, HttpResponse head ∧ head.length ≤ 8193 ∧ bs = head ++ rest := by
  rw [dialHttpConnect]
  constructor
  · intro h
    obtain ⟨u, rest₀, hsent, h₀⟩ := reading_bind_eq_ok h
    cases hsent
    obtain ⟨head, rest₁, hhead, h₁⟩ := reading_bind_eq_ok h₀
    obtain ⟨front, hfront, hbs, -, hlen, hend, hbefore⟩ := reading_readHead_iff.mp hhead
    rw [List.nil_append] at hfront
    rw [hfront] at h₁
    dsimp only at h₁
    split at h₁
    · next hok =>
        cases h₁
        refine ⟨front, ⟨headerBlock_iff.mpr ⟨hend, fun n hn => ?_⟩, hok⟩, hlen, hbs⟩
        rcases Nat.eq_zero_or_pos n with rfl | hpos
        · rfl
        · exact hbefore n hn hpos
    · cases h₁
  · rintro ⟨head, ⟨hblock, hok⟩, hlen, rfl⟩
    obtain ⟨hend, hbefore⟩ := headerBlock_iff.mp hblock
    refine (reading_bind_ok reading_perform).trans ?_
    have hne : head ≠ [] := by
      rintro rfl
      cases hend
    have hread : (HttpConnect.readHead 8192 []).reading (head ++ rest) = some (.ok head, rest) :=
      reading_readHead_iff.mpr ⟨head, rfl, rfl, hne, hlen, hend, fun n hn _ => hbefore n hn⟩
    refine (reading_bind_ok hread).trans ?_
    dsimp only
    rw [if_pos hok]
    rfl

/-! ## What a VLESS server answers -/

/-- The version, and the addons behind their length. -/
def VlessResponse (resp : Bytes) : Prop :=
  ∃ addons : Bytes, addons.length ≤ 255 ∧
    resp = VlessResponseStream.version :: UInt8.ofNat addons.length :: addons

/-- The stream that `establish_vless` returns, if it does not look for TLS in it. -/
def vlessOver (crates : DialCrates) (o : VlessOptions) (host : Str) (port : UInt16)
    (t : Transport) : Except ProxyError (VlessResponseStream Transport) :=
  (playedOn (establishVless crates o host port) t).map fun t =>
    .new t (String.ofList host) port

theorem reading_establishVless {o : VlessOptions} {req : Bytes} (hflow : isVision o.flow = false)
    (hreq : vlessRequest crates o.id host port false = .ok req) :
    (establishVless crates o host port).reading bs = some (.ok (), bs) := by
  rw [establishVless, hflow, hreq]
  rfl

/-- Establishing VLESS reads nothing. -/
theorem reading_establishVless_eq {o : VlessOptions} (hflow : isVision o.flow = false)
    (h : (establishVless crates o host port).reading bs = some (.ok (), rest)) : bs = rest := by
  rw [establishVless, hflow] at h
  obtain ⟨req, rest₀, hreq, h₀⟩ := reading_bind_eq_ok h
  cases h₀
  exact (Prod.mk.inj (Option.some.inj hreq)).2

theorem yields_vless {t : Transport} {resp payload : Bytes} (name : String) (port : UInt16)
    (hresp : VlessResponse resp) (hall : unread t.reads = resp ++ payload) :
    VlessResponseStream.Yields (VlessResponseStream.new t name port) payload t.readEnd := by
  obtain ⟨addons, hlen, rfl⟩ := hresp
  refine ⟨unread t.reads, t.readEnd, ⟨rfl, rfl⟩, ?_⟩
  have hlen : (UInt8.ofNat addons.length).toNat = addons.length := by
    rw [UInt8.toNat_ofNat']
    omega
  show VlessResponseStream.decodeResponse _ ([] ++ unread t.reads) t.readEnd = _
  rw [hall, List.nil_append, List.cons_append, List.cons_append,
    VlessResponseStream.decodeResponse, if_neg (not_not_intro rfl),
    VlessResponseStream.decodeAddons, hlen, if_neg (by rw [List.length_append]; omega),
    List.drop_left]

/-! ## Handing over -/

/-- A dial returns only when an answer is complete. -/
def Awaits {σ : Type} (dial : Transport → Except ProxyError σ) (Complete : Bytes → Prop) : Prop :=
  ∀ t st, dial t = .ok st → ∃ answer payload, Complete answer ∧ unread t.reads = answer ++ payload

/-- The stream that a dial returns delivers what `heard` makes of the bytes behind the answer,
whatever pieces they all come in.  A dial that can send its request returns one, if the answer
is one that it is `able` to take. -/
structure HandsOver {σ : Type} [AsyncRead σ] (dial : Transport → Except ProxyError σ)
    (Complete able : Bytes → Prop) (heard : Bytes → End IoError → Bytes × End IoError) : Prop where
  delivers : ∀ t st answer payload, dial t = .ok st → Complete answer →
    unread t.reads = answer ++ payload →
    Delivers pollRead st (heard payload t.readEnd).1 (heard payload t.readEnd).2
  returns : ∀ t answer payload, t.writes = [] → Complete answer → able answer →
    unread t.reads = answer ++ payload → ∃ st, dial t = .ok st

/-- The bytes themselves. -/
def plain (payload : Bytes) (o : End IoError) : Bytes × End IoError := (payload, o)

theorem delivers_transport {t : Transport} {payload : Bytes} {o : End IoError}
    (hrest : unread t.reads = payload) (hend : t.readEnd = o) : Delivers pollRead t payload o :=
  Transport.readSpec.delivers ⟨hrest.symm, hend.symm⟩

/-- Two headers at the front of the same bytes are one. -/
theorem headerBlock_unique {block block' more more' : Bytes} (h : HttpObfs.HeaderBlock block)
    (h' : HttpObfs.HeaderBlock block') (heq : block ++ more = block' ++ more') :
    block = block' ∧ more = more' := by
  have hfind := h.findHeaderEnd more
  rw [heq, h'.findHeaderEnd more'] at hfind
  exact List.append_inj heq (Option.some.inj hfind).symm

theorem socks_handsOver (o : SocksOptions) (host : Str) (port : UInt16) :
    Awaits (playedOn (dialSocks5 o host port)) (SocksResponse (bytes (o.username.getD []))) ∧
      HandsOver (playedOn (dialSocks5 o host port)) (SocksResponse (bytes (o.username.getD [])))
        (fun _ => ∃ addr, ProxyAddress.writeSocksPortLast (String.ofList host) port
          (2 + ProxyAddress.maxLength) = .ok addr) plain := by
  refine ⟨fun t st h => ?_, ⟨fun t st answer payload h hcomplete hall => ?_,
    fun t answer payload hw hcomplete haddr hall => ?_⟩⟩
  · obtain ⟨-, resp, hresp, hall⟩ := reading_dialSocks5_iff.mp (reading_of_playedOn h).1
    exact ⟨resp, _, hresp, hall⟩
  · obtain ⟨hreading, hend⟩ := reading_of_playedOn h
    have haddr := (reading_dialSocks5_iff.mp hreading).1
    rw [reading_dialSocks5_iff.mpr ⟨haddr, answer, hcomplete, hall⟩] at hreading
    exact delivers_transport (Prod.mk.inj (Option.some.inj hreading)).2.symm hend
  · exact playedOn_of_reading hw (reading_dialSocks5_iff.mpr ⟨haddr, answer, hcomplete, hall⟩)

theorem http_handsOver (crates : DialCrates) (p : HttpProxyOptions) (host : Str) (port : UInt16) :
    Awaits (playedOn (dialHttpConnect crates p host port)) HttpResponse ∧
      HandsOver (playedOn (dialHttpConnect crates p host port)) HttpResponse
        (fun answer => answer.length ≤ 8193) plain := by
  refine ⟨fun t st h => ?_, ⟨fun t st answer payload h hcomplete hall => ?_,
    fun t answer payload hw hcomplete hlen hall => ?_⟩⟩
  · obtain ⟨head, hhead, -, hall⟩ := reading_dialHttpConnect_iff.mp (reading_of_playedOn h).1
    exact ⟨head, _, hhead, hall⟩
  · obtain ⟨hreading, hend⟩ := reading_of_playedOn h
    obtain ⟨head, hhead, -, hall'⟩ := reading_dialHttpConnect_iff.mp hreading
    obtain ⟨-, hrest⟩ := headerBlock_unique hhead.1 hcomplete.1 (hall'.symm.trans hall)
    exact delivers_transport hrest hend
  · exact playedOn_of_reading hw (reading_dialHttpConnect_iff.mpr ⟨answer, hcomplete, hlen, hall⟩)

theorem vless_handsOver (crates : DialCrates) {o : VlessOptions} (hflow : isVision o.flow = false)
    (host : Str) (port : UInt16) :
    HandsOver (vlessOver crates o host port) VlessResponse
      (fun _ => ∃ req, vlessRequest crates o.id host port false = .ok req) plain := by
  refine ⟨fun t st answer payload h hcomplete hall => ?_, fun t answer payload hw _ hreq hall => ?_⟩
  · rw [vlessOver] at h
    cases hover : playedOn (establishVless crates o host port) t with
    | error e =>
        rw [hover] at h
        cases h
    | ok t' =>
        rw [hover] at h
        cases h
        obtain ⟨hreading, hend⟩ := reading_of_playedOn hover
        have hrest := reading_establishVless_eq hflow hreading
        rw [hall] at hrest
        have hy := yields_vless (String.ofList host) port hcomplete hrest.symm
        rw [hend] at hy
        exact VlessResponseStream.readSpec.delivers hy
  · obtain ⟨req, hreq⟩ := hreq
    obtain ⟨t', ht'⟩ := playedOn_of_reading hw (reading_establishVless hflow hreq)
    exact ⟨_, by rw [vlessOver, ht']; rfl⟩

open Upgrade in
theorem httpUpgrade_handsOver (crates : DialCrates) (path : Option Str) (hostHeader : Str)
    (key : Octets 16) (rng : Nat → UInt8) :
    Awaits (Upgrade.applyTransport crates .httpUpgrade path hostHeader key rng) (Accepted none) ∧
      HandsOver (Upgrade.applyTransport crates .httpUpgrade path hostHeader key rng) (Accepted none)
        (fun answer => answer.length ≤ maxBlock) plain := by
  have hsplit : ∀ {t st}, Upgrade.applyTransport crates .httpUpgrade path hostHeader key rng t =
      .ok st → ∃ block leftover t', Accepted none block ∧
        unread t.reads = block ++ (leftover ++ unread t'.reads) ∧ t'.readEnd = t.readEnd ∧
        st = if leftover.isEmpty then .raw t' else .prefixed ⟨leftover, 0, t'⟩ := by
    intro t st h
    simp only [Upgrade.applyTransport] at h
    split at h
    · cases h
    · next leftover t' hup =>
        obtain ⟨block, haccepted, hall, hend⟩ := httpUpgrade_ok hup
        refine ⟨block, leftover, t', haccepted, hall, hend, ?_⟩
        split at h
        · next hnil =>
            cases h
            rw [if_pos hnil]
        · next hne =>
            cases h
            rw [if_neg hne]
  refine ⟨fun t st h => ?_, ⟨fun t st answer payload h hcomplete hall => ?_,
    fun t answer payload hw hcomplete hlen hall => ?_⟩⟩
  · obtain ⟨block, leftover, t', haccepted, hall, -⟩ := hsplit h
    exact ⟨block, _, haccepted, hall⟩
  · obtain ⟨block, leftover, t', haccepted, hall', hend, rfl⟩ := hsplit h
    obtain ⟨-, hrest⟩ := headerBlock_unique haccepted.1 hcomplete.1 (hall'.symm.trans hall)
    refine Upgraded.readSpec.delivers ?_
    show Upgraded.Yields _ payload t.readEnd
    rw [← hrest, ← hend]
    split
    · next hnil =>
        rw [List.isEmpty_iff.mp hnil]
        exact ⟨rfl, rfl⟩
    · exact ⟨unread t'.reads, ⟨rfl, rfl⟩, rfl⟩
  · obtain ⟨leftover, t', hup⟩ := httpUpgrade_succeeds crates (normalizePath path)
      hostHeader none hw hcomplete hlen hall
    simp only [Upgrade.applyTransport, hup]
    split <;> exact ⟨_, rfl⟩

open Upgrade in
theorem webSocket_handsOver (crates : DialCrates) (path : Option Str) (hostHeader : Str)
    (key : Octets 16) (rng : Nat → UInt8) :
    Awaits (Upgrade.applyTransport crates .webSocket path hostHeader key rng)
        (Accepted (some (acceptOf crates key))) ∧
      HandsOver (Upgrade.applyTransport crates .webSocket path hostHeader key rng)
        (Accepted (some (acceptOf crates key))) (fun answer => answer.length ≤ maxBlock)
        (fun payload o => WebSocketStream.decode o 0 payload) := by
  have hsplit : ∀ {t st}, Upgrade.applyTransport crates .webSocket path hostHeader key rng t =
      .ok st → ∃ block leftover t', Accepted (some (acceptOf crates key)) block ∧
        unread t.reads = block ++ (leftover ++ unread t'.reads) ∧ t'.readEnd = t.readEnd ∧
        st = .webSocket (.new t' leftover rng) := by
    intro t st h
    simp only [Upgrade.applyTransport] at h
    split at h
    · cases h
    · next leftover t' hup =>
        cases h
        obtain ⟨block, haccepted, hall, hend⟩ := httpUpgrade_ok hup
        exact ⟨block, leftover, t', haccepted, hall, hend, rfl⟩
  refine ⟨fun t st h => ?_, ⟨fun t st answer payload h hcomplete hall => ?_,
    fun t answer payload hw hcomplete hlen hall => ?_⟩⟩
  · obtain ⟨block, leftover, t', haccepted, hall, -⟩ := hsplit h
    exact ⟨block, _, haccepted, hall⟩
  · obtain ⟨block, leftover, t', haccepted, hall', hend, rfl⟩ := hsplit h
    obtain ⟨-, hrest⟩ := headerBlock_unique haccepted.1 hcomplete.1 (hall'.symm.trans hall)
    refine Upgraded.readSpec.delivers ?_
    rw [← hrest, ← hend]
    exact ⟨Nat.le_refl _, rfl⟩
  · obtain ⟨leftover, t', hup⟩ := httpUpgrade_succeeds crates (normalizePath path)
      hostHeader (some key) hw hcomplete hlen hall
    simp only [Upgrade.applyTransport, hup]
    exact ⟨_, rfl⟩

open Upgrade in
/-- No payload is lost or invented where a handshake ends: for SOCKS5, HTTP CONNECT, an upgrade
with and without WebSocket, and VLESS, the stream that is returned delivers what the peer sends
behind its answer, and for WebSocket the payloads of the frames in it. -/
theorem payload_handed_over (crates : DialCrates) :
    (∀ (o : SocksOptions) (host : Str) (port : UInt16),
      Awaits (playedOn (dialSocks5 o host port)) (SocksResponse (bytes (o.username.getD []))) ∧
      HandsOver (playedOn (dialSocks5 o host port)) (SocksResponse (bytes (o.username.getD [])))
        (fun _ => ∃ addr, ProxyAddress.writeSocksPortLast (String.ofList host) port
          (2 + ProxyAddress.maxLength) = .ok addr) plain) ∧
    (∀ (p : HttpProxyOptions) (host : Str) (port : UInt16),
      Awaits (playedOn (dialHttpConnect crates p host port)) HttpResponse ∧
      HandsOver (playedOn (dialHttpConnect crates p host port)) HttpResponse
        (fun answer => answer.length ≤ 8193) plain) ∧
    (∀ (path : Option Str) (hostHeader : Str) (key : Octets 16) (rng : Nat → UInt8),
      Awaits (Upgrade.applyTransport crates .httpUpgrade path hostHeader key rng) (Accepted none) ∧
      HandsOver (Upgrade.applyTransport crates .httpUpgrade path hostHeader key rng) (Accepted none)
        (fun answer => answer.length ≤ maxBlock) plain) ∧
    (∀ (path : Option Str) (hostHeader : Str) (key : Octets 16) (rng : Nat → UInt8),
      Awaits (Upgrade.applyTransport crates .webSocket path hostHeader key rng)
        (Accepted (some (acceptOf crates key))) ∧
      HandsOver (Upgrade.applyTransport crates .webSocket path hostHeader key rng)
        (Accepted (some (acceptOf crates key))) (fun answer => answer.length ≤ maxBlock)
        (fun payload o => WebSocketStream.decode o 0 payload)) ∧
    (∀ (fs : List WebSocket.Frame) (tail : Bytes) (o : End IoError), (∀ f ∈ fs, f.Fits) →
      (∀ k, List.replicate k [] <:+: WebSocketStream.dataPayloads fs →
        k ≤ WebSocket.maxEmptyFrames) →
      WebSocket.parseWsFrame tail = .ok none →
      WebSocketStream.decode o 0 (fs.flatMap WebSocket.Frame.bytes ++ tail) =
        (WebSocketStream.payloads fs, WebSocketStream.endOf o fs)) ∧
    (∀ (o : VlessOptions) (host : Str) (port : UInt16), isVision o.flow = false →
      HandsOver (vlessOver crates o host port) VlessResponse
        (fun _ => ∃ req, vlessRequest crates o.id host port false = .ok req) plain) := by
  refine ⟨socks_handsOver, http_handsOver crates, httpUpgrade_handsOver crates,
    webSocket_handsOver crates, fun fs tail o hfits hruns htail => ?_,
    fun o host port hflow => vless_handsOver crates hflow host port⟩
  exact WebSocketStream.decode_frames hfits
    (WebSocketStream.patient_of_runs hruns fun k hk => hruns k hk.isInfix) htail

/-- The end of the reply comes with a byte of the payload. -/
theorem payload_handed_over_socks :
    let o : SocksOptions := ⟨none, none⟩
    let t := Transport.serving
      [.data 5 [0, 5, 0, 0], .pending, .data 1 [127, 0, 0, 1, 0, 80, 42], .data 43 []] .eof
    ∃ st, playedOn (dialSocks5 o "a".toList 80) t = .ok st ∧ Delivers pollRead st [42, 43] .eof := by
  intro o t
  obtain ⟨-, hdelivers, hreturns⟩ := (payload_handed_over .sums).1 o "a".toList 80
  have hresp : SocksResponse (bytes (o.username.getD []))
      ([0x05, 0x00] ++ ([0x05, 0x00, 0] ++ 0x01 :: [127, 0, 0, 1, 0, 80])) :=
    .plain 0 _ (.ipv4 _ rfl)
  obtain ⟨st, hst⟩ := hreturns t _ [42, 43] rfl hresp ⟨_, rfl⟩ rfl
  exact ⟨st, hst, hdelivers t st _ [42, 43] hst hresp rfl⟩

end Dial

end RustClash
