import RustClash.Lib.ByteOrder

/-!
# ClientHello messages

A vector is its length and its content.  How a receiver reads a ClientHello: the vectors
in a record, a handshake message, a list of extensions or a list of names have to fill
it, so a message that is read states every length right.
-/

namespace Tls

/-! ## Vectors -/

def vector (width : Nat) (content : List UInt8) : List UInt8 :=
  toBe width content.length ++ content

@[simp] theorem length_vector (width : Nat) (content : List UInt8) :
    (vector width content).length = width + content.length := by
  rw [vector, List.length_append, length_toBe]

/-- The first bytes, and what follows them. -/
def takeBytes (n : Nat) (bs : List UInt8) : Option (List UInt8 × List UInt8) :=
  if bs.length < n then none else some (bs.take n, bs.drop n)

/-- The content of a vector, and what follows it. -/
def takeVector (width : Nat) (bs : List UInt8) : Option (List UInt8 × List UInt8) :=
  (takeBytes width bs).bind fun (len, rest) => takeBytes (ofBe len) rest

/-- The content of a vector with nothing behind it. -/
def onlyVector (width : Nat) (bs : List UInt8) : Option (List UInt8) :=
  (takeVector width bs).bind fun (content, rest) => if rest.isEmpty then some content else none

theorem takeBytes_append {n : Nat} {bs : List UInt8} (h : bs.length = n) (rest : List UInt8) :
    takeBytes n (bs ++ rest) = some (bs, rest) := by
  rw [takeBytes, if_neg (by rw [List.length_append, h]; omega), List.take_left' h,
    List.drop_left' h]

variable {width : Nat} {content : List UInt8}

theorem takeVector_vector (h : content.length < 256 ^ width) (rest : List UInt8) :
    takeVector width (vector width content ++ rest) = some (content, rest) := by
  rw [takeVector, vector, List.append_assoc, takeBytes_append (length_toBe _ _)]
  show takeBytes (ofBe (toBe width content.length)) (content ++ rest) = _
  rw [ofBe_toBe h, takeBytes_append rfl]

theorem onlyVector_vector (h : content.length < 256 ^ width) :
    onlyVector width (vector width content) = some content := by
  have htake := takeVector_vector h []
  rw [List.append_nil] at htake
  rw [onlyVector, htake]
  rfl

/-! ## Extensions -/

structure Extension where
  type : Nat
  data : List UInt8
deriving DecidableEq

def Extension.bytes (e : Extension) : List UInt8 := toBe 2 e.type ++ vector 2 e.data

/-- An extension whose type and length have room. -/
structure Extension.Fits (e : Extension) : Prop where
  type : e.type < 256 ^ 2
  data : e.data.length < 256 ^ 2

def takeExtension (bs : List UInt8) : Option (Extension × List UInt8) :=
  (takeBytes 2 bs).bind fun (type, rest) =>
    (takeVector 2 rest).map fun (data, rest) => (⟨ofBe type, data⟩, rest)

/-- The extensions that fill the bytes. -/
def readExtensions : (fuel : Nat) → List UInt8 → Option (List Extension)
  | _, [] => some []
  | 0, _ :: _ => none
  | fuel + 1, b :: bs =>
      (takeExtension (b :: bs)).bind fun (e, rest) => (readExtensions fuel rest).map (e :: ·)

theorem takeExtension_bytes {e : Extension} (h : e.Fits) (rest : List UInt8) :
    takeExtension (e.bytes ++ rest) = some (e, rest) := by
  rw [takeExtension, Extension.bytes, List.append_assoc, takeBytes_append (length_toBe _ _)]
  show (takeVector 2 (vector 2 e.data ++ rest)).map _ = _
  rw [takeVector_vector h.data, ofBe_toBe h.type]
  rfl

theorem readExtensions_bytes {es : List Extension} (h : ∀ e ∈ es, e.Fits) {fuel : Nat}
    (hfuel : es.length ≤ fuel) : readExtensions fuel (es.flatMap Extension.bytes) = some es := by
  induction es generalizing fuel with
  | nil =>
    rw [List.flatMap_nil, readExtensions]
  | cons e es ih =>
    obtain ⟨he, hes⟩ := List.forall_mem_cons.mp h
    cases fuel with
    | zero => exact absurd hfuel (Nat.not_succ_le_zero _)
    | succ fuel =>
      have htake := takeExtension_bytes he (es.flatMap Extension.bytes)
      rw [List.flatMap_cons]
      generalize e.bytes ++ es.flatMap Extension.bytes = bs at htake ⊢
      cases bs with
      | nil => cases htake
      | cons b bs =>
        rw [readExtensions, htake]
        show (readExtensions fuel (es.flatMap Extension.bytes)).map _ = _
        rw [ih hes (Nat.le_of_succ_le_succ hfuel)]
        rfl

/-! ## Messages -/

structure ClientHello where
  version : List UInt8
  random : List UInt8
  sessionId : List UInt8
  cipherSuites : List UInt8
  compressionMethods : List UInt8
  extensions : List Extension
deriving DecidableEq

namespace ClientHello

def body (h : ClientHello) : List UInt8 :=
  h.version ++ (h.random ++ (vector 1 h.sessionId ++ (vector 2 h.cipherSuites ++
    (vector 1 h.compressionMethods ++ vector 2 (h.extensions.flatMap Extension.bytes)))))

/-- A handshake record with the message in it. -/
def record (h : ClientHello) : List UInt8 := [22, 3, 1] ++ vector 2 (1 :: vector 3 h.body)

def parseBody (bs : List UInt8) : Option ClientHello :=
  (takeBytes 2 bs).bind fun (version, bs) =>
  (takeBytes 32 bs).bind fun (random, bs) =>
  (takeVector 1 bs).bind fun (sessionId, bs) =>
  (takeVector 2 bs).bind fun (cipherSuites, bs) =>
  (takeVector 1 bs).bind fun (compressionMethods, bs) =>
  (onlyVector 2 bs).bind fun exts =>
  (readExtensions exts.length exts).map fun extensions =>
    { version, random, sessionId, cipherSuites, compressionMethods, extensions }

/-- The message in a handshake record, and what follows the record. -/
def parse : List UInt8 → Option (ClientHello × List UInt8)
  | 22 :: 3 :: _ :: bs =>
      (takeVector 2 bs).bind fun (fragment, rest) =>
        match fragment with
        | 1 :: message => ((onlyVector 3 message).bind parseBody).map (·, rest)
        | _ => none
  | _ => none

/-- A message whose fields have the sizes they must, and fit what states their lengths. -/
structure Fits (h : ClientHello) : Prop where
  version : h.version.length = 2
  random : h.random.length = 32
  sessionId : h.sessionId.length < 256 ^ 1
  cipherSuites : h.cipherSuites.length < 256 ^ 2
  compressionMethods : h.compressionMethods.length < 256 ^ 1
  extensions : ∀ e ∈ h.extensions, e.Fits
  record : h.body.length + 4 < 256 ^ 2

variable {h : ClientHello}

theorem length_le_flatMap_bytes (es : List Extension) :
    es.length ≤ (es.flatMap Extension.bytes).length := by
  induction es with
  | nil => exact Nat.le_refl _
  | cons e es ih =>
    rw [List.flatMap_cons, List.length_append, Extension.bytes, List.length_append, length_toBe,
      List.length_cons]
    omega

theorem parseBody_body (hfits : h.Fits) : parseBody h.body = some h := by
  have hexts : (h.extensions.flatMap Extension.bytes).length < 256 ^ 2 := by
    have hrecord := hfits.record
    simp only [body, List.length_append, length_vector] at hrecord
    omega
  rw [parseBody, body, takeBytes_append hfits.version]
  show (takeBytes 32 _).bind _ = _
  rw [takeBytes_append hfits.random]
  show (takeVector 1 _).bind _ = _
  rw [takeVector_vector hfits.sessionId]
  show (takeVector 2 _).bind _ = _
  rw [takeVector_vector hfits.cipherSuites]
  show (takeVector 1 _).bind _ = _
  rw [takeVector_vector hfits.compressionMethods]
  show (onlyVector 2 _).bind _ = _
  rw [onlyVector_vector hexts]
  show (readExtensions _ (h.extensions.flatMap Extension.bytes)).map _ = _
  rw [readExtensions_bytes hfits.extensions (length_le_flatMap_bytes _)]
  rfl

/-- The record of a message that fits is read back, whatever follows it. -/
theorem parse_record (hfits : h.Fits) (rest : List UInt8) : parse (h.record ++ rest) = some (h, rest) := by
  have hrecord := hfits.record
  have hbody : h.body.length < 256 ^ 3 := Nat.lt_trans (Nat.lt_of_add_right_lt hrecord) (by decide)
  have hfragment : (1 :: vector 3 h.body).length < 256 ^ 2 := by
    rw [List.length_cons, length_vector]
    omega
  show parse (22 :: 3 :: 1 :: (vector 2 (1 :: vector 3 h.body) ++ rest)) = _
  rw [parse, takeVector_vector hfragment]
  show ((onlyVector 3 (vector 3 h.body)).bind parseBody).map _ = _
  rw [onlyVector_vector hbody]
  show (parseBody h.body).map _ = _
  rw [parseBody_body hfits]
  rfl

/-- The data of an extension. -/
def extension (h : ClientHello) (type : Nat) : Option (List UInt8) :=
  (h.extensions.find? (·.type = type)).map (·.data)

def sessionTicket (h : ClientHello) : Option (List UInt8) := h.extension 35

/-- The first name of the server name extension, a host name that fills it. -/
def serverName (h : ClientHello) : Option (List UInt8) :=
  (h.extension 0).bind fun data =>
    (onlyVector 2 data).bind fun names =>
      match names with
      | 0 :: name => onlyVector 2 name
      | _ => none

end ClientHello

/-! ## Contents of extensions

The extensions that a client of TLS 1.3 sends, as its ClientHello has to write them: no
list of them is empty but that of the key shares, and neither is a host name, the name of
a protocol or a key. -/

/-- The items that fill the bytes. -/
def readItems {α : Type} (item : List UInt8 → Option (α × List UInt8)) :
    (fuel : Nat) → List UInt8 → Option (List α)
  | _, [] => some []
  | 0, _ :: _ => none
  | fuel + 1, b :: bs => (item (b :: bs)).bind fun (a, rest) => (readItems item fuel rest).map (a :: ·)

/-- A vector of items, at least `least` of them, with nothing behind it. -/
def readList {α : Type} (width least : Nat) (item : List UInt8 → Option (α × List UInt8))
    (bs : List UInt8) : Option (List α) :=
  ((onlyVector width bs).bind fun content => readItems item content.length content).filter
    (least ≤ ·.length)

/-- A vector that is not empty. -/
def takeSome (width : Nat) (bs : List UInt8) : Option (List UInt8 × List UInt8) :=
  (takeVector width bs).filter (!·.1.isEmpty)

def takeByte : List UInt8 → Option (UInt8 × List UInt8)
  | [] => none
  | b :: bs => some (b, bs)

def takeU16 (bs : List UInt8) : Option (Nat × List UInt8) :=
  (takeBytes 2 bs).map fun (n, rest) => (ofBe n, rest)

def takeHostName : List UInt8 → Option (List UInt8 × List UInt8)
  | 0 :: bs => takeSome 2 bs
  | _ => none

def takeKeyShare (bs : List UInt8) : Option ((Nat × List UInt8) × List UInt8) :=
  (takeU16 bs).bind fun (group, rest) => (takeSome 2 rest).map fun (key, rest) => ((group, key), rest)

inductive Content where
  | serverNames (names : List (List UInt8))
  | groups (groups : List Nat)
  | signatureAlgorithms (schemes : List Nat)
  | protocols (names : List (List UInt8))
  | versions (versions : List Nat)
  | pskModes (modes : List UInt8)
  | keyShares (shares : List (Nat × List UInt8))
  | other (extension : Extension)
deriving DecidableEq

def Extension.read (e : Extension) : Option Content :=
  match e.type with
  | 0 => (readList 2 1 takeHostName e.data).map .serverNames
  | 10 => (readList 2 1 takeU16 e.data).map .groups
  | 13 => (readList 2 1 takeU16 e.data).map .signatureAlgorithms
  | 16 => (readList 2 1 (takeSome 1) e.data).map .protocols
  | 43 => (readList 1 1 takeU16 e.data).map .versions
  | 45 => (readList 1 1 takeByte e.data).map .pskModes
  | 51 => (readList 2 0 takeKeyShare e.data).map .keyShares
  | _ => some (.other e)

/-- The fields as a client of TLS 1.3 has to fill them, and no extension twice. -/
structure ClientHello.Legal (h : ClientHello) : Prop where
  version : h.version = [3, 3]
  sessionId : h.sessionId.length ≤ 32
  cipherSuites : 2 ≤ h.cipherSuites.length ∧ 2 ∣ h.cipherSuites.length
  compressionMethods : h.compressionMethods = [0]
  extensions : (h.extensions.map (·.type)).Nodup

instance (h : ClientHello) : Decidable h.Legal :=
  decidable_of_iff (h.version = [3, 3] ∧ h.sessionId.length ≤ 32 ∧
      (2 ≤ h.cipherSuites.length ∧ 2 ∣ h.cipherSuites.length) ∧ h.compressionMethods = [0] ∧
      (h.extensions.map (·.type)).Nodup)
    ⟨fun ⟨a, b, c, d, e⟩ => ⟨a, b, c, d, e⟩, fun ⟨a, b, c, d, e⟩ => ⟨a, b, c, d, e⟩⟩

/-- A ClientHello of TLS 1.3, and what its extensions say. -/
def ClientHello.parse13 : List UInt8 → Option (ClientHello × List Content)
  | 1 :: message =>
      (((onlyVector 3 message).bind parseBody).filter fun h => h.Legal).bind fun h =>
        (h.extensions.mapM Extension.read).map (h, ·)
  | _ => none

/-! ### Reading lists back -/

section

variable {α : Type} {item : List UInt8 → Option (α × List UInt8)} {enc : α → List UInt8}
  {as : List α}

theorem readItems_flatMap (hitem : ∀ a ∈ as, ∀ rest, item (enc a ++ rest) = some (a, rest))
    (hne : ∀ a ∈ as, enc a ≠ []) {fuel : Nat} (hfuel : (as.flatMap enc).length ≤ fuel) :
    readItems item fuel (as.flatMap enc) = some as := by
  induction as generalizing fuel with
  | nil =>
    rw [List.flatMap_nil, readItems]
  | cons a as ih =>
    obtain ⟨hhead, htail⟩ := List.forall_mem_cons.mp hitem
    obtain ⟨hfirst, hrest⟩ := List.forall_mem_cons.mp hne
    have htake := hhead (as.flatMap enc)
    have hpos := List.length_pos_iff.mpr hfirst
    rw [List.flatMap_cons, List.length_append] at hfuel
    rw [List.flatMap_cons]
    obtain ⟨b, bs, hbs⟩ := List.exists_cons_of_ne_nil hfirst
    rw [hbs, List.cons_append] at htake ⊢
    cases fuel with
    | zero => omega
    | succ fuel =>
      rw [readItems, htake]
      show (readItems item fuel (as.flatMap enc)).map _ = _
      rw [ih htail hrest (by omega)]
      rfl

theorem readList_vector {width least : Nat}
    (hitem : ∀ a ∈ as, ∀ rest, item (enc a ++ rest) = some (a, rest))
    (hne : ∀ a ∈ as, enc a ≠ []) (hleast : least ≤ as.length)
    (hlen : (as.flatMap enc).length < 256 ^ width) :
    readList width least item (vector width (as.flatMap enc)) = some as := by
  rw [readList, onlyVector_vector hlen]
  show (readItems item _ (as.flatMap enc)).filter _ = _
  rw [readItems_flatMap hitem hne (Nat.le_refl _), Option.filter_some_pos (by simpa using hleast)]

end

theorem takeSome_vector {width : Nat} {content : List UInt8} (hne : content ≠ [])
    (hlen : content.length < 256 ^ width) (rest : List UInt8) :
    takeSome width (vector width content ++ rest) = some (content, rest) := by
  rw [takeSome, takeVector_vector hlen, Option.filter_some_pos]
  simpa using hne

theorem takeU16_toBe {n : Nat} (h : n < 256 ^ 2) (rest : List UInt8) :
    takeU16 (toBe 2 n ++ rest) = some (n, rest) := by
  rw [takeU16, takeBytes_append (length_toBe _ _)]
  show some (ofBe (toBe 2 n), rest) = _
  rw [ofBe_toBe h]

theorem takeKeyShare_bytes {group : Nat} {key : List UInt8} (hgroup : group < 256 ^ 2)
    (hne : key ≠ []) (hlen : key.length < 256 ^ 2) (rest : List UInt8) :
    takeKeyShare (toBe 2 group ++ vector 2 key ++ rest) = some ((group, key), rest) := by
  rw [takeKeyShare, List.append_assoc, takeU16_toBe hgroup]
  show (takeSome 2 (vector 2 key ++ rest)).map _ = _
  rw [takeSome_vector hne hlen]
  rfl

/-- A legal message whose extensions are read is read back whole. -/
theorem ClientHello.parse13_message {h : ClientHello} {contents : List Content} (hfits : h.Fits)
    (hlegal : h.Legal) (hcontents : h.extensions.mapM Extension.read = some contents) :
    ClientHello.parse13 (1 :: vector 3 h.body) = some (h, contents) := by
  have hrecord := hfits.record
  have hbody : h.body.length < 256 ^ 3 := Nat.lt_trans (Nat.lt_of_add_right_lt hrecord) (by decide)
  rw [parse13, onlyVector_vector hbody]
  show ((parseBody h.body).filter _).bind _ = _
  rw [parseBody_body hfits, Option.filter_some_pos (by simpa using hlegal)]
  show (h.extensions.mapM Extension.read).map _ = _
  rw [hcontents]
  rfl

end Tls
