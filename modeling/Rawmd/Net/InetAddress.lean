import Rawmd.Lib.Printf
import Rawmd.Lib.Scan
import Rawmd.Base.LogStream

/-!
# `net/InetAddress.cpp`, `net/SocketsOps.cpp`: the text of an IPv4 endpoint

A `sockaddr_in` is the bytes of its address and port as they are in memory, in network order.

An `InetAddress` is made from a `StringPiece` by a function that reads up to a NUL, so it depends
on what stands behind the piece:

    the text of the address comes out again ↔ the byte behind it is a NUL    (ofPiece_iff)

but for `0.0.0.0`, which is also the address of a text that cannot be read.
-/

namespace Rawmd

open Printf Scan
open LogStream (Piece)

structure SockaddrIn where
  sinAddr : UInt8 × UInt8 × UInt8 × UInt8
  sinPort : UInt8 × UInt8
deriving DecidableEq

namespace Sockets

def networkToHost16 (net16 : UInt8 × UInt8) : Nat := net16.1.toNat * 256 + net16.2.toNat

/-- `inet_ntop(AF_INET, ..)` -/
def toIp (addr : SockaddrIn) : Text :=
  let (a, b, c, d) := addr.sinAddr
  decimal a.toNat ++ ['.'] ++ decimal b.toNat ++ ['.'] ++ decimal c.toNat ++ ['.'] ++
    decimal d.toNat

def toIpPort (size : Nat) (addr : SockaddrIn) : Text :=
  snprintf size (toIp addr ++ [':'] ++ decimal (networkToHost16 addr.sinPort))

/-- `htobe16` -/
def hostToNetwork16 (host16 : UInt16) : UInt8 × UInt8 :=
  (UInt8.ofNat (host16.toNat / 256), UInt8.ofNat (host16.toNat % 256))

/-- A number below 256, without zeros in front. -/
def octet (s : Text) : Option UInt8 :=
  if s = decimal (digits s) ∧ digits s < 256 then some (UInt8.ofNat (digits s)) else none

/-- `inet_pton(AF_INET, ..)` -/
def inetPton (src : Text) : Option (UInt8 × UInt8 × UInt8 × UInt8) :=
  match src.splitOn '.' with
  | [a, b, c, d] => do
    let a ← octet a
    let b ← octet b
    let c ← octet c
    let d ← octet d
    return (a, b, c, d)
  | _ => none

/-- Where the text is no address, it is logged and `sin_addr` stays as it is. -/
def fromIpPort (ip : Text) (port : UInt16) (addr : SockaddrIn) : SockaddrIn where
  sinAddr := (inetPton ip).getD addr.sinAddr
  sinPort := hostToNetwork16 port

end Sockets

/-- What a C function reads from `data` on: the bytes before the first NUL.  Without one it reads
past the end of the buffer. -/
def cString (data : Text) : Option Text :=
  if nul ∈ data then some (data.takeWhile (· ≠ nul)) else none

namespace InetAddress

/-- `bzero(&addr_, sizeof addr_)` -/
def zeroed : SockaddrIn := ⟨(0, 0, 0, 0), (0, 0)⟩

/-- `InetAddress(const StringPiece& ip, uint16_t port)`: `fromIpPort` gets `ip.data()`, without the
size. -/
def ofPiece (ip : Piece) (port : UInt16) : Option SockaddrIn :=
  (cString ip.data).map fun s => Sockets.fromIpPort s port zeroed

def toIpPort (addr : SockaddrIn) : Text := Sockets.toIpPort 32 addr

end InetAddress

/-! ## The text -/

theorem length_decimal_uint8 (x : UInt8) : (decimal x.toNat).length ≤ 3 :=
  (length_decimal_le_iff (by decide)).2 (by have := x.toNat_lt; omega)

theorem length_decimal_port (p : UInt8 × UInt8) :
    (decimal (Sockets.networkToHost16 p)).length ≤ 5 := by
  rw [length_decimal_le_iff (by decide), Sockets.networkToHost16]
  have := p.1.toNat_lt
  have := p.2.toNat_lt
  omega

theorem length_toIp (addr : SockaddrIn) :
    7 ≤ (Sockets.toIp addr).length ∧ (Sockets.toIp addr).length ≤ 15 := by
  obtain ⟨⟨a, b, c, d⟩, p⟩ := addr
  have ha := length_decimal_uint8 a
  have hb := length_decimal_uint8 b
  have hc := length_decimal_uint8 c
  have hd := length_decimal_uint8 d
  have ha' := length_decimal_pos a.toNat
  have hb' := length_decimal_pos b.toNat
  have hc' := length_decimal_pos c.toNat
  have hd' := length_decimal_pos d.toNat
  simp only [Sockets.toIp, List.length_append, List.length_singleton]
  omega

/-- Nothing is cut off. -/
theorem toIpPort_eq (addr : SockaddrIn) : InetAddress.toIpPort addr =
    Sockets.toIp addr ++ ':' :: decimal (Sockets.networkToHost16 addr.sinPort) := by
  have hip := length_toIp addr
  have hport := length_decimal_port addr.sinPort
  rw [InetAddress.toIpPort, Sockets.toIpPort, snprintf_of_fits]
  · rw [List.append_assoc, List.singleton_append]
  · rw [List.length_append, List.length_append, List.length_singleton]
    omega

/-- Between `0.0.0.0:0` and `255.255.255.255:65535`. -/
theorem length_toIpPort (addr : SockaddrIn) :
    9 ≤ (InetAddress.toIpPort addr).length ∧ (InetAddress.toIpPort addr).length ≤ 21 := by
  have hip := length_toIp addr
  have hport := length_decimal_port addr.sinPort
  have hport' := length_decimal_pos (Sockets.networkToHost16 addr.sinPort)
  rw [toIpPort_eq, List.length_append, List.length_cons]
  omega

/-! ## Parsing -/

theorem networkToHost16_hostToNetwork16 (p : UInt16) :
    Sockets.networkToHost16 (Sockets.hostToNetwork16 p) = p.toNat := by
  have hlt := p.toNat_lt
  rw [Sockets.networkToHost16, Sockets.hostToNetwork16, UInt8.toNat_ofNat', UInt8.toNat_ofNat']
  omega

theorem octet_eq_some_iff {s : Text} {x : UInt8} :
    Sockets.octet s = some x ↔ s = decimal x.toNat := by
  unfold Sockets.octet
  constructor
  · intro h
    split at h
    · next hs =>
      cases h
      rw [UInt8.toNat_ofNat', Nat.mod_eq_of_lt hs.2]
      exact hs.1
    · cases h
  · rintro rfl
    have hdigits : digits (decimal x.toNat) = x.toNat := by
      have h : digits (decimal x.toNat ++ []) = x.toNat :=
        digits_decimal x.toNat (fun c hc => nomatch hc)
      rwa [List.append_nil] at h
    rw [hdigits, if_pos ⟨rfl, x.toNat_lt⟩, UInt8.ofNat_toNat]

theorem toIp_eq (a b c d : UInt8) (p : UInt8 × UInt8) : Sockets.toIp ⟨(a, b, c, d), p⟩ =
    decimal a.toNat ++ '.' :: (decimal b.toNat ++ '.' :: (decimal c.toNat ++ '.' ::
      decimal d.toNat)) := by
  simp [Sockets.toIp]

/-- `inet_pton` reads what `inet_ntop` prints, and nothing else. -/
theorem inetPton_eq_some_iff {s : Text} {addr : UInt8 × UInt8 × UInt8 × UInt8}
    (p : UInt8 × UInt8) : Sockets.inetPton s = some addr ↔ s = Sockets.toIp ⟨addr, p⟩ := by
  obtain ⟨a, b, c, d⟩ := addr
  have hdot (x : UInt8) : '.' ∉ decimal x.toNat := not_mem_decimal (by decide) _
  constructor
  · intro h
    unfold Sockets.inetPton at h
    split at h
    · next s₁ s₂ s₃ s₄ hs =>
      simp only [Option.bind_eq_bind, Option.bind_eq_some_iff, Option.pure_def, Option.some.injEq,
        Prod.mk.injEq, octet_eq_some_iff] at h
      obtain ⟨_, rfl, _, rfl, _, rfl, _, rfl, rfl, rfl, rfl, rfl⟩ := h
      have hjoin : ['.'].intercalate (s.splitOn '.') = s := List.intercalate_splitOn '.'
      rw [← hjoin, hs, toIp_eq]
      simp [List.intercalate]
    · cases h
  · rintro rfl
    rw [toIp_eq, Sockets.inetPton, List.splitOn_append_cons_self_of_not_mem (hdot a),
      List.splitOn_append_cons_self_of_not_mem (hdot b),
      List.splitOn_append_cons_self_of_not_mem (hdot c), List.splitOn_eq_singleton (hdot d)]
    simp only [octet_eq_some_iff.2 rfl]
    rfl

theorem toIp_inj {a b : UInt8 × UInt8 × UInt8 × UInt8} {p q : UInt8 × UInt8}
    (h : Sockets.toIp ⟨a, p⟩ = Sockets.toIp ⟨b, q⟩) : a = b := by
  have ha : Sockets.inetPton (Sockets.toIp ⟨a, p⟩) = some a := (inetPton_eq_some_iff p).2 rfl
  have hb : Sockets.inetPton (Sockets.toIp ⟨b, q⟩) = some b := (inetPton_eq_some_iff q).2 rfl
  rw [h, hb] at ha
  cases ha
  rfl

theorem not_mem_toIp {c : Char} (hdigit : c.isDigit = false) (hdot : c ≠ '.') (addr : SockaddrIn) :
    c ∉ Sockets.toIp addr := by
  obtain ⟨⟨a, b, c, d⟩, p⟩ := addr
  simp [toIp_eq, not_mem_decimal hdigit, hdot]

/-- A zero is not followed by more digits, so no longer text is an address. -/
theorem toIp_zero_append {addr : SockaddrIn} {p : UInt8 × UInt8} {x : Text}
    (h : Sockets.toIp addr = Sockets.toIp ⟨(0, 0, 0, 0), p⟩ ++ x) : x = [] := by
  obtain ⟨⟨a, b, c, d⟩, q⟩ := addr
  have hdot (y : UInt8) : '.' ∉ decimal y.toNat := not_mem_decimal (by decide) _
  rw [toIp_eq, toIp_eq, List.append_assoc, List.cons_append, List.append_assoc, List.cons_append,
    List.append_assoc, List.cons_append] at h
  obtain ⟨-, h⟩ := append_cons_inj (hdot _) (hdot _) h
  obtain ⟨-, h⟩ := append_cons_inj (hdot _) (hdot _) h
  obtain ⟨-, h⟩ := append_cons_inj (hdot _) (hdot _) h
  exact decimal_zero_cons h

/-! ## From a piece to its address -/

/-- The bytes behind a piece. -/
def rest (v : Piece) : Text := v.data.drop v.size.toNat

theorem data_eq {v : Piece} {text : Text} (h : v.asString = some text) :
    v.data = text ++ rest v := by
  unfold Piece.asString at h
  split at h
  · cases h
    exact (List.take_append_drop _ _).symm
  · cases h

/-- A NUL right behind the piece, or somewhere behind `0.0.0.0`. -/
def NulBehind (addr : UInt8 × UInt8 × UInt8 × UInt8) (v : Piece) : Prop :=
  (rest v).head? = some nul ∨ addr = (0, 0, 0, 0) ∧ nul ∈ rest v

instance (addr : UInt8 × UInt8 × UInt8 × UInt8) (v : Piece) : Decidable (NulBehind addr v) :=
  inferInstanceAs (Decidable (_ ∨ _))

/-- The address that is read at the front of the bytes `x` behind a text. -/
theorem inetPton_append_iff {a : UInt8 × UInt8 × UInt8 × UInt8} {q : UInt8 × UInt8} {x : Text} :
    (Sockets.inetPton (Sockets.toIp ⟨a, q⟩ ++ x)).getD (0, 0, 0, 0) = a ↔
      x = [] ∨ a = (0, 0, 0, 0) := by
  cases h : Sockets.inetPton (Sockets.toIp ⟨a, q⟩ ++ x) with
  | none =>
    constructor
    · intro ha
      exact .inr ha.symm
    · rintro (rfl | ha)
      · rw [List.append_nil, (inetPton_eq_some_iff q).2 rfl] at h
        cases h
      · exact ha.symm
  | some b =>
    have hb := (inetPton_eq_some_iff q).1 h
    show b = a ↔ _
    constructor
    · rintro rfl
      exact .inl (List.append_right_eq_self.1 hb)
    · intro hx
      have hnil : x = [] := by
        rcases hx with hx | rfl
        · exact hx
        · exact toIp_zero_append hb.symm
      rw [hnil, List.append_nil] at hb
      exact (toIp_inj hb).symm

theorem cString_append {text : Text} (h : nul ∉ text) (y : Text) :
    cString (text ++ y) = (cString y).map (text ++ ·) := by
  have htext : ∀ c ∈ text, decide (c ≠ nul) = true := by
    intro c hc
    rw [decide_eq_true_eq]
    rintro rfl
    exact h hc
  have hmem : nul ∈ text ++ y ↔ nul ∈ y := by simp [h]
  unfold cString
  by_cases hy : nul ∈ y
  · rw [if_pos (hmem.2 hy), if_pos hy, List.takeWhile_append_of_pos htext]
    rfl
  · rw [if_neg (mt hmem.1 hy), if_neg hy]
    rfl

theorem cString_eq_some_nil_iff {y : Text} : cString y = some [] ↔ y.head? = some nul := by
  cases y with
  | nil => simp [cString]
  | cons c y =>
    by_cases hc : c = nul
    · subst hc
      simp [cString]
    · simp [cString, hc]

theorem ofPiece_eq_some_iff {a : UInt8 × UInt8 × UInt8 × UInt8} {q : UInt8 × UInt8}
    (port : UInt16) {v : Piece} (h : v.asString = some (Sockets.toIp ⟨a, q⟩)) :
    InetAddress.ofPiece v port = some ⟨a, Sockets.hostToNetwork16 port⟩ ↔ NulBehind a v := by
  have hnul : nul ∉ Sockets.toIp ⟨a, q⟩ := not_mem_toIp (by decide) (by decide) _
  rw [InetAddress.ofPiece, data_eq h, cString_append hnul, NulBehind, ← cString_eq_some_nil_iff]
  cases hx : cString (rest v) with
  | none =>
    have hrest : nul ∉ rest v := by
      intro hmem
      rw [cString, if_pos hmem] at hx
      cases hx
    simp [hrest]
  | some x =>
    have hrest : nul ∈ rest v := by
      by_contra hmem
      rw [cString, if_neg hmem] at hx
      cases hx
    have hiff := inetPton_append_iff (a := a) (q := q) (x := x)
    simp only [Option.map_some, Option.some.injEq, Sockets.fromIpPort, InetAddress.zeroed,
      SockaddrIn.mk.injEq, and_true, hrest]
    exact hiff

/-- For an address printed into a piece: its text comes out again, with the port, exactly if the
byte behind the piece is a NUL, or if it is `0.0.0.0` and there is one further on.  Of two such
pieces with the same bytes the address is the same. -/
theorem ofPiece_iff (a : UInt8 × UInt8 × UInt8 × UInt8) (port : UInt16) (v : Piece)
    (h : v.asString = some (Sockets.toIp ⟨a, (0, 0)⟩)) :
    ((InetAddress.ofPiece v port).map InetAddress.toIpPort =
        some (Sockets.toIp ⟨a, (0, 0)⟩ ++ ':' :: decimal port.toNat) ↔ NulBehind a v) ∧
      ∀ w : Piece, w.asString = v.asString → NulBehind a v → NulBehind a w →
        InetAddress.ofPiece w port = InetAddress.ofPiece v port := by
  refine ⟨?_, ?_⟩
  · rw [← ofPiece_eq_some_iff port h]
    constructor
    · intro hmap
      obtain ⟨addr, haddr, htext⟩ := Option.map_eq_some_iff.1 hmap
      have hport : addr.sinPort = Sockets.hostToNetwork16 port := by
        obtain ⟨s, -, rfl⟩ := Option.map_eq_some_iff.1 haddr
        rfl
      rw [toIpPort_eq] at htext
      have hcolon (addr : SockaddrIn) : ':' ∉ Sockets.toIp addr :=
        not_mem_toIp (by decide) (by decide) addr
      obtain ⟨hip, -⟩ := append_cons_inj (hcolon _) (hcolon _) htext
      obtain ⟨b, p⟩ := addr
      obtain rfl : p = Sockets.hostToNetwork16 port := hport
      rw [haddr, toIp_inj hip]
    · intro hv
      rw [hv, Option.map_some, toIpPort_eq, networkToHost16_hostToNetwork16]
      rfl
  · intro w hw hv hw'
    rw [(ofPiece_eq_some_iff port h).2 hv, (ofPiece_eq_some_iff port (hw.trans h)).2 hw']

/-- The same seven bytes, before a NUL, before other bytes, and in the middle of a number. -/
def terminated : Piece := ⟨"1.2.3.4\x00".toList, 7, by decide, by decide⟩

def terminatedAgain : Piece := ⟨"1.2.3.4\x005".toList, 7, by decide, by decide⟩

def followed : Piece := ⟨"1.2.3.45\x00".toList, 7, by decide, by decide⟩

theorem terminated_ofPiece :
    (InetAddress.ofPiece terminated 80).map InetAddress.toIpPort = some "1.2.3.4:80".toList ∧
    InetAddress.ofPiece terminatedAgain 80 = InetAddress.ofPiece terminated 80 := by
  obtain ⟨htext, hsame⟩ := ofPiece_iff (1, 2, 3, 4) 80 terminated (by decide)
  exact ⟨htext.2 (by decide), hsame terminatedAgain (by decide) (by decide) (by decide)⟩

/-- The address is not that of the piece, and not that of another one with the same bytes. -/
theorem followed_ofPiece :
    followed.asString = some "1.2.3.4".toList ∧ followed.asString = terminated.asString ∧
    (InetAddress.ofPiece followed 80).map InetAddress.toIpPort = some "1.2.3.45:80".toList ∧
    (InetAddress.ofPiece followed 80).map InetAddress.toIpPort ≠ some "1.2.3.4:80".toList ∧
    InetAddress.ofPiece followed 80 ≠ InetAddress.ofPiece terminated 80 := by
  decide

end Rawmd
