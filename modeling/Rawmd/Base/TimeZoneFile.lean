import Rawmd.Lib.Reader
import Rawmd.Lib.MachineInt
import Rawmd.Base.TimeZone

/-!
# `base/TimeZone.cpp`: zone files

`readTimeZoneFile` reads the version-1 part of a TZif file.  A file is its bytes, `none` if it
cannot be opened.  A section that is shorter than its count is a `logic_error`, which is caught;
what has been pushed into the data by then stays there.  What the language leaves undefined (an
index outside its vector, a negative array length, an overflow) is the error `undefined`.

    readTimeZoneFile (encode zone ++ trailing) gives the zone        (readTimeZoneFile_exact)
    TimeZone(file) of it has a local time for every time             (ofFile_encode)
    BadFile file → TimeZone(file) is valid with what was read        (ofFile_bad)
-/

namespace Rawmd

open MachineInt Reader

namespace TimeZone

/-! ## `detail::File` -/

inductive ReadError where
  | logicError (what : String)
  | undefined
deriving DecidableEq, Repr

abbrev FileReader := Reader UInt8 Data ReadError

/-- The bytes as a number, the first is the highest. -/
def bigEndian (bytes : List UInt8) : Nat :=
  bytes.foldl (fun n byte => 256 * n + byte.toNat) 0

def readBytes (n : Int) : FileReader (List UInt8) :=
  if n < 0 then fail .undefined else take n.toNat (.logicError "no enough data")

/-- `be32toh`, as an `int32_t`. -/
def readInt32 : FileReader Int := do
  let x ← take 4 (.logicError "bad int32_t data")
  return wrap 32 (bigEndian x)

def readUInt8 : FileReader Nat := do
  let x ← take 1 (.logicError "bad uint8_t data")
  return bigEndian x

/-! ## `readTimeZoneFile` -/

/-- "TZif" -/
def magic : List UInt8 := [84, 90, 105, 102]

def checkHead (head : List UInt8) : FileReader Unit :=
  if head = magic then pure () else fail (.logicError "bad head")

/-- `trans.reserve(timecnt)`: the argument is converted to `size_t`. -/
def reserve (timecnt : Int) : FileReader Unit :=
  if timecnt < 0 then fail (.logicError "vector::reserve") else pure ()

def pushLocaltime (l : Localtime) (data : Data) : Data :=
  { data with localtimes := data.localtimes ++ [l] }

def pushTransition (t : Transition) (data : Data) : Data :=
  { data with transitions := data.transitions ++ [t] }

def readLocaltime : FileReader Unit := do
  let gmtoff ← readInt32
  let isdst ← readUInt8
  let abbrind ← readUInt8
  modify (pushLocaltime ⟨gmtoff, isdst != 0, abbrind⟩)

/-- A round of the loop over the transitions; the sum is computed in 64 bits. -/
def addTransition (trans : List Int) (localtimes : List Nat) (i : Nat) : FileReader Unit := do
  let data ← get
  match trans[i]?, localtimes[i]? with
  | some time, some localIdx =>
    match data.localtimes[localIdx]? with
    | some l =>
      if Fits 64 (time + l.gmtOffset) then
        modify (pushTransition ⟨time, time + l.gmtOffset, localIdx⟩)
      else fail .undefined
    | none => fail .undefined
  | _, _ => fail .undefined

/-- The statements after the header, for the counts it holds. -/
def readSections (leapcnt timecnt typecnt charcnt : Int) : FileReader Unit := do
  reserve timecnt
  let trans ← loop timecnt fun _ => readInt32
  let localtimes ← loop timecnt fun _ => readUInt8
  let _ ← loop typecnt fun _ => readLocaltime
  let _ ← loop timecnt (addTransition trans localtimes)
  let abbreviation ← readBytes charcnt
  modify fun data => { data with abbreviation := abbreviation }
  -- the body of the loop over the leap seconds is commented out
  let _ ← loop leapcnt fun _ => pure ()

def readCounts : FileReader Unit := do
  let _isgmtcnt ← readInt32
  let _isstdcnt ← readInt32
  let leapcnt ← readInt32
  let timecnt ← readInt32
  let typecnt ← readInt32
  let charcnt ← readInt32
  readSections leapcnt timecnt typecnt charcnt

/-- The body of the `try` block. -/
def readData : FileReader Unit := do
  let head ← readBytes 4
  checkHead head
  let _version ← readBytes 1
  let _ ← readBytes 15
  readCounts

/-- What a call returns, leaves in `data` and prints on `stderr`. -/
structure ReadResult where
  success : Bool
  data : Data
  stderr : String
deriving DecidableEq, Repr

def readTimeZoneFile (zonefile : Option (List UInt8)) (data : Data) :
    Except ReadError ReadResult :=
  match zonefile with
  | none => .ok ⟨true, data, ""⟩
  | some content =>
    match readData content data with
    | (.ok (), _, data) => .ok ⟨true, data, ""⟩
    | (.error (.logicError what), _, data) => .ok ⟨true, data, what ++ "\n"⟩
    | (.error .undefined, _, _) => .error .undefined

/-- `TimeZone(const char* zonefile)` -/
def ofFile (zonefile : Option (List UInt8)) : Except ReadError TimeZone := do
  let result ← readTimeZoneFile zonefile .empty
  return if result.success then some result.data else none

/-! ## Zone descriptions and their encoding -/

structure ZoneTransition where
  time : Int32
  typeIdx : UInt8

structure ZoneType where
  gmtoff : Int32
  isdst : UInt8
  abbrind : UInt8

/-- What a version-1 TZif file describes. -/
structure Zone where
  version : UInt8
  reserved : List UInt8
  isgmtcnt : Int32
  isstdcnt : Int32
  leapcnt : Int32
  transitions : List ZoneTransition
  types : List ZoneType
  abbreviation : List UInt8
  reserved_length : reserved.length = 15
  timecnt_lt : transitions.length < 2 ^ 31
  typecnt_lt : types.length < 2 ^ 31
  charcnt_lt : abbreviation.length < 2 ^ 31
  typeIdx_lt : ∀ t ∈ transitions, t.typeIdx.toNat < types.length

def encodeNat32 (n : Nat) : List UInt8 :=
  [.ofNat (n / 2 ^ 24), .ofNat (n / 2 ^ 16), .ofNat (n / 2 ^ 8), .ofNat n]

def encodeInt32 (x : Int32) : List UInt8 := encodeNat32 x.toUInt32.toNat

def ZoneType.encode (type : ZoneType) : List UInt8 :=
  encodeInt32 type.gmtoff ++ ([type.isdst] ++ [type.abbrind])

namespace Zone

def encodeSections (zone : Zone) : List UInt8 :=
  zone.transitions.flatMap (fun t => encodeInt32 t.time) ++
    (zone.transitions.flatMap (fun t => [t.typeIdx]) ++
      (zone.types.flatMap ZoneType.encode ++ zone.abbreviation))

def encodeCounts (zone : Zone) : List UInt8 :=
  encodeInt32 zone.isgmtcnt ++ (encodeInt32 zone.isstdcnt ++ (encodeInt32 zone.leapcnt ++
    (encodeNat32 zone.transitions.length ++ (encodeNat32 zone.types.length ++
      encodeNat32 zone.abbreviation.length))))

def encode (zone : Zone) : List UInt8 :=
  magic ++ ([zone.version] ++ (zone.reserved ++ (zone.encodeCounts ++ zone.encodeSections)))

end Zone

/-! ## Reading an encoding -/

theorem bigEndian_encodeNat32 {n : Nat} (h : n < 2 ^ 32) : bigEndian (encodeNat32 n) = n := by
  simp only [bigEndian, encodeNat32, List.foldl_cons, List.foldl_nil, UInt8.toNat_ofNat']
  omega

theorem reads_nat32 {n : Nat} (h : n < 2 ^ 32) (data : Data) :
    Reads readInt32 (encodeNat32 n) data (wrap 32 n) data := by
  have hlen : (encodeNat32 n).length = 4 := rfl
  refine Reads.map (.take hlen _ data) ?_
  rw [bigEndian_encodeNat32 h]
  exact .pure _ data

theorem reads_int32 (x : Int32) (data : Data) :
    Reads readInt32 (encodeInt32 x) data x.toInt data := by
  have h := reads_nat32 x.toUInt32.toNat_lt data
  have hwrap : wrap 32 x.toUInt32.toNat = x.toInt :=
    (BitVec.toInt_eq_toNat_bmod x.toBitVec).symm
  rwa [hwrap] at h

theorem reads_count {n : Nat} (h : n < 2 ^ 31) (data : Data) :
    Reads readInt32 (encodeNat32 n) data n data := by
  have hread := reads_nat32 (n := n) (by omega) data
  rwa [wrap_of_fits (by decide) ⟨by omega, by simpa using h⟩] at hread

theorem reads_uint8 (x : UInt8) (data : Data) :
    Reads readUInt8 [x] data x.toNat data := by
  have hlen : [x].length = 1 := rfl
  have hx : bigEndian [x] = x.toNat := by simp [bigEndian]
  refine Reads.map (.take hlen _ data) ?_
  rw [hx]
  exact .pure _ data

theorem reads_bytes {bytes : List UInt8} {n : Int} (hn : n = bytes.length) (data : Data) :
    Reads (readBytes n) bytes data bytes data := by
  subst hn
  rw [readBytes, if_neg (by omega)]
  exact .take (by simp) _ data

def ZoneType.localtime (type : ZoneType) : Localtime :=
  ⟨type.gmtoff.toInt, type.isdst != 0, type.abbrind.toNat⟩

theorem reads_localtime (type : ZoneType) (data : Data) :
    Reads readLocaltime type.encode data () (pushLocaltime type.localtime data) := by
  have hdst : (type.isdst.toNat != 0) = (type.isdst != 0) := by
    rw [Bool.eq_iff_iff]
    simp [← UInt8.toNat_inj]
  refine (reads_int32 type.gmtoff data).bind ?_
  refine (reads_uint8 type.isdst data).bind ?_
  refine (reads_uint8 type.abbrind data).map ?_
  rw [hdst]
  exact .modify _ data

theorem fits_toInt (x : Int32) : Fits 32 x.toInt := ⟨x.le_toInt, x.toInt_lt⟩

/-- Two 32-bit numbers cannot overflow 64 bits. -/
theorem fits_add {x y : Int} (hx : Fits 32 x) (hy : Fits 32 y) : Fits 64 (x + y) := by
  unfold Fits at *
  omega

theorem foldl_pushLocaltime {α : Type} (f : α → Localtime) (l : List α) (data : Data) :
    l.foldl (fun data a => pushLocaltime (f a) data) data =
      { data with localtimes := data.localtimes ++ l.map f } := by
  induction l generalizing data with
  | nil => simp
  | cons a l ih =>
    rw [List.foldl_cons, ih]
    simp [pushLocaltime]

namespace Zone

variable (zone : Zone)

def transition (t : ZoneTransition) : Transition :=
  let gmtoff := match zone.types[t.typeIdx.toNat]? with
    | some type => type.gmtoff.toInt
    | none => 0
  ⟨t.time.toInt, t.time.toInt + gmtoff, t.typeIdx.toNat⟩

def data : Data :=
  ⟨zone.transitions.map zone.transition, zone.types.map ZoneType.localtime, zone.abbreviation⟩

theorem transition_eq {t : ZoneTransition} {type : ZoneType}
    (h : zone.types[t.typeIdx.toNat]? = some type) :
    zone.transition t =
      ⟨t.time.toInt, t.time.toInt + type.gmtoff.toInt, t.typeIdx.toNat⟩ := by
  simp only [transition, h]

theorem foldl_pushTransition (ts : List ZoneTransition) (data : Data) :
    ts.foldl (fun data t => pushTransition (zone.transition t) data) data =
      { data with transitions := data.transitions ++ ts.map zone.transition } := by
  induction ts generalizing data with
  | nil => simp
  | cons t ts ih =>
    rw [List.foldl_cons, ih]
    simp [pushTransition]

theorem exists_type {t : ZoneTransition} (h : t ∈ zone.transitions) :
    ∃ type, zone.types[t.typeIdx.toNat]? = some type :=
  ⟨_, List.getElem?_eq_getElem (zone.typeIdx_lt t h)⟩

/-- Once the types are read, a round adds the transition of its index. -/
theorem reads_addTransition {k : Nat} {t : ZoneTransition} (ht : zone.transitions[k]? = some t)
    {data : Data} (hdata : data.localtimes = zone.types.map ZoneType.localtime) :
    Reads (addTransition (zone.transitions.map fun t => t.time.toInt)
        (zone.transitions.map fun t => t.typeIdx.toNat) k)
      [] data () (pushTransition (zone.transition t) data) := by
  obtain ⟨type, htype⟩ := zone.exists_type (List.mem_of_getElem? ht)
  refine Reads.bind (.get data) ?_
  rw [zone.transition_eq htype]
  simp only [List.getElem?_map, ht, hdata, htype, Option.map_some, ZoneType.localtime]
  rw [if_pos (fits_add (fits_toInt t.time) (fits_toInt type.gmtoff))]
  exact .modify _ data

/-! The sections one by one. -/

theorem reads_times (data : Data) :
    Reads (loop zone.transitions.length fun _ => readInt32)
      (zone.transitions.flatMap fun t => encodeInt32 t.time) data
      (zone.transitions.map fun t => t.time.toInt) data :=
  .loop_same rfl fun _ t _ => reads_int32 t.time data

theorem reads_typeIdxs (data : Data) :
    Reads (loop zone.transitions.length fun _ => readUInt8)
      (zone.transitions.flatMap fun t => [t.typeIdx]) data
      (zone.transitions.map fun t => t.typeIdx.toNat) data :=
  .loop_same rfl fun _ t _ => reads_uint8 t.typeIdx data

theorem reads_types (data : Data) :
    Reads (loop zone.types.length fun _ => readLocaltime)
      (zone.types.flatMap ZoneType.encode) data (zone.types.map fun _ => ())
      { data with localtimes := data.localtimes ++ zone.types.map ZoneType.localtime } := by
  rw [← foldl_pushLocaltime]
  refine .loop (I := fun _ => True) rfl ?_ ?_ trivial
  · intro _ _ _
    trivial
  · intro _ type _ d _
    exact reads_localtime type d

/-- The loop over the transitions reads nothing; the types are in the data by then. -/
theorem reads_transitions {data : Data}
    (hdata : data.localtimes = zone.types.map ZoneType.localtime) :
    Reads (loop zone.transitions.length (addTransition (zone.transitions.map fun t => t.time.toInt)
        (zone.transitions.map fun t => t.typeIdx.toNat)))
      [] data (zone.transitions.map fun _ => ())
      { data with transitions := data.transitions ++ zone.transitions.map zone.transition } := by
  have hnothing : ([] : List UInt8) = zone.transitions.flatMap fun _ => [] := by simp
  rw [hnothing, ← foldl_pushTransition]
  refine .loop (I := fun d : Data => d.localtimes = zone.types.map ZoneType.localtime) rfl
    ?_ ?_ hdata
  · intro d t hd
    exact hd
  · intro k t ht d hd
    exact zone.reads_addTransition ht hd

theorem reads_sections :
    Reads (readSections zone.leapcnt.toInt zone.transitions.length zone.types.length
      zone.abbreviation.length) zone.encodeSections .empty () zone.data := by
  have hreserve : Reads (reserve zone.transitions.length) [] .empty () .empty := by
    rw [reserve, if_neg (by omega)]
    exact .pure () _
  refine hreserve.bind ?_
  refine (zone.reads_times _).bind ?_
  refine (zone.reads_typeIdxs _).bind ?_
  refine (zone.reads_types _).bind ?_
  refine (zone.reads_transitions rfl).bind ?_
  refine (reads_bytes rfl _).map ?_
  refine (Reads.modify _ _).bind ?_
  exact (Reads.loop_pure _ _ _).map (.pure () _)

theorem reads_counts :
    Reads readCounts (zone.encodeCounts ++ zone.encodeSections) .empty () zone.data := by
  simp only [encodeCounts, List.append_assoc]
  refine (reads_int32 _ _).bind ?_
  refine (reads_int32 _ _).bind ?_
  refine (reads_int32 _ _).bind ?_
  refine (reads_count zone.timecnt_lt _).bind ?_
  refine (reads_count zone.typecnt_lt _).bind ?_
  refine (reads_count zone.charcnt_lt _).bind ?_
  exact zone.reads_sections

theorem reads_data : Reads readData zone.encode .empty () zone.data := by
  have hhead : (4 : Int) = magic.length := rfl
  have hversion : (1 : Int) = [zone.version].length := rfl
  have hreserved : (15 : Int) = zone.reserved.length := by rw [zone.reserved_length]; rfl
  refine (reads_bytes hhead _).bind ?_
  rw [checkHead, if_pos rfl]
  refine (Reads.pure () _).bind ?_
  refine (reads_bytes hversion _).bind ?_
  refine (reads_bytes hreserved _).bind ?_
  exact zone.reads_counts

theorem data_inRange (hne : zone.types ≠ [])
    (habbr : ∀ type ∈ zone.types, type.abbrind.toNat ≤ zone.abbreviation.length) :
    zone.data.InRange := by
  refine ⟨?_, fun t ht => ?_, fun l hl => ?_⟩
  · rw [data, List.length_map]
    exact List.length_pos_of_ne_nil hne
  · obtain ⟨z, hz, rfl⟩ := List.mem_map.1 ht
    rw [data, List.length_map]
    exact zone.typeIdx_lt z hz
  · obtain ⟨type, htype, rfl⟩ := List.mem_map.1 hl
    exact habbr type htype

end Zone

theorem readTimeZoneFile_encode (zone : Zone) (trailing : List UInt8) :
    readTimeZoneFile (some (zone.encode ++ trailing)) .empty = .ok ⟨true, zone.data, ""⟩ := by
  simp only [readTimeZoneFile, zone.reads_data trailing]

/-- If the abbreviation indices are in range, too, the zone of the file has a local time for every
time. -/
theorem ofFile_encode (zone : Zone) (trailing : List UInt8) (hne : zone.types ≠ [])
    (habbr : ∀ type ∈ zone.types, type.abbrind.toNat ≤ zone.abbreviation.length) :
    ∃ tz : TimeZone, ofFile (some (zone.encode ++ trailing)) = .ok tz ∧ tz.valid = true ∧
      ∀ seconds, ∃ tm, tz.toLocalTime seconds = .ok tm := by
  refine ⟨some zone.data, ?_, rfl, fun seconds => ?_⟩
  · rw [ofFile, readTimeZoneFile_encode]
    rfl
  · obtain ⟨l, -, abbr, htm⟩ := toLocalTime_inRange (zone.data_inRange hne habbr) seconds
    exact ⟨_, htm⟩

/-- Reading is exact, whatever follows the encoding: the types in their order, each transition
with its time, its local time and its index, and the abbreviation bytes. -/
theorem readTimeZoneFile_exact (zone : Zone) (trailing : List UInt8) :
    ∃ data, readTimeZoneFile (some (zone.encode ++ trailing)) .empty = .ok ⟨true, data, ""⟩ ∧
      data.localtimes = zone.types.map
        (fun type => ⟨type.gmtoff.toInt, type.isdst != 0, type.abbrind.toNat⟩) ∧
      data.transitions.length = zone.transitions.length ∧
      (∀ (i : Nat) (t : ZoneTransition), zone.transitions[i]? = some t →
        ∃ type : ZoneType, zone.types[t.typeIdx.toNat]? = some type ∧
          Fits 64 (t.time.toInt + type.gmtoff.toInt) ∧
          data.transitions[i]? =
            some ⟨t.time.toInt, t.time.toInt + type.gmtoff.toInt, t.typeIdx.toNat⟩) ∧
      data.abbreviation = zone.abbreviation := by
  refine ⟨zone.data, readTimeZoneFile_encode zone trailing, rfl, List.length_map .., ?_, rfl⟩
  intro i t ht
  obtain ⟨type, htype⟩ := zone.exists_type (List.mem_of_getElem? ht)
  refine ⟨type, htype, fits_add (fits_toInt t.time) (fits_toInt type.gmtoff), ?_⟩
  rw [Zone.data, List.getElem?_map, ht, Option.map_some, zone.transition_eq htype]

/-- One clock change, from `UTC` to one hour east of it. -/
def summer : Zone where
  version := 50
  reserved := List.replicate 15 0
  isgmtcnt := 2
  isstdcnt := 2
  leapcnt := -1
  transitions := [⟨-100, 1⟩]
  types := [⟨0, 0, 0⟩, ⟨3600, 1, 4⟩]
  abbreviation := [85, 84, 67, 0, 83, 0]
  reserved_length := rfl
  timecnt_lt := by decide
  typecnt_lt := by decide
  charcnt_lt := by decide
  typeIdx_lt := by decide

theorem summer_exact :
    readTimeZoneFile (some (summer.encode ++ [1, 2, 3])) .empty =
      .ok ⟨true, ⟨[⟨-100, 3500, 1⟩], [⟨0, false, 0⟩, ⟨3600, true, 4⟩],
        [85, 84, 67, 0, 83, 0]⟩, ""⟩ := by
  obtain ⟨data, hread, htypes, hlen, htrans, habbr⟩ := readTimeZoneFile_exact summer [1, 2, 3]
  obtain ⟨type, htype, -, hfirst⟩ := htrans 0 ⟨-100, 1⟩ rfl
  cases htype
  obtain ⟨transitions, localtimes, abbreviation⟩ := data
  obtain ⟨first, rfl⟩ := List.length_eq_one_iff.1 hlen
  cases hfirst
  cases htypes
  cases habbr
  exact hread

/-! ## Bad files -/

/-- The `k`-th of the six counts at the start of `x`. -/
def countIn (x : List UInt8) (k : Nat) : Int :=
  wrap 32 (bigEndian ((x.drop (4 * k)).take 4))

/-- What the header and the sections announced by its counts take. -/
def announcedLength (content : List UInt8) : Nat :=
  let counts := content.drop 20
  44 + 5 * (countIn counts 3).toNat + 6 * (countIn counts 4).toNat + (countIn counts 5).toNat

/-- The file cannot be opened, does not start with "TZif", or ends too early. -/
def BadFile : Option (List UInt8) → Prop
  | none => True
  | some content => content.take 4 ≠ magic ∨ content.length < announcedLength content

instance (zonefile : Option (List UInt8)) : Decidable (BadFile zonefile) :=
  match zonefile with
  | none => isTrue trivial
  | some _ => inferInstanceAs (Decidable (_ ∨ _))

theorem readBytes_ok {n : Int} {x xs rest : List UInt8} {d d' : Data}
    (h : readBytes n x d = (.ok xs, rest, d')) :
    n.toNat ≤ x.length ∧ xs = x.take n.toNat ∧ rest = x.drop n.toNat := by
  unfold readBytes at h
  split at h
  · cases h
  · exact take_ok h

theorem readInt32_ok {v : Int} {x rest : List UInt8} {d d' : Data}
    (h : readInt32 x d = (.ok v, rest, d')) :
    4 ≤ x.length ∧ v = wrap 32 (bigEndian (x.take 4)) ∧ rest = x.drop 4 := by
  obtain ⟨bytes, mid, e, htake, h⟩ := bind_ok h
  obtain ⟨hlen, rfl, rfl⟩ := take_ok htake
  exact ⟨hlen, pure_ok h⟩

theorem readInt32_length {v : Int} {x rest : List UInt8} {d d' : Data}
    (h : readInt32 x d = (.ok v, rest, d')) : x.length = rest.length + 4 := by
  obtain ⟨hlen, -, rfl⟩ := readInt32_ok h
  rw [List.length_drop]
  omega

theorem readUInt8_length {v : Nat} {x rest : List UInt8} {d d' : Data}
    (h : readUInt8 x d = (.ok v, rest, d')) : x.length = rest.length + 1 := by
  obtain ⟨bytes, mid, e, htake, h⟩ := bind_ok h
  obtain ⟨hlen, rfl, rfl⟩ := take_ok htake
  obtain ⟨rfl, rfl⟩ := pure_ok h
  rw [List.length_drop]
  omega

theorem readLocaltime_length {u : Unit} {x rest : List UInt8} {d d' : Data}
    (h : readLocaltime x d = (.ok u, rest, d')) : x.length = rest.length + 6 := by
  obtain ⟨gmtoff, x₁, d₁, h₁, h⟩ := bind_ok h
  obtain ⟨isdst, x₂, d₂, h₂, h⟩ := bind_ok h
  obtain ⟨abbrind, x₃, d₃, h₃, h⟩ := bind_ok h
  cases h
  rw [readInt32_length h₁, readUInt8_length h₂, readUInt8_length h₃]

theorem addTransition_length {trans : List Int} {localtimes : List Nat} {i : Nat} {u : Unit}
    {x rest : List UInt8} {d d' : Data}
    (h : addTransition trans localtimes i x d = (.ok u, rest, d')) : x.length = rest.length := by
  obtain ⟨data, mid, e, hget, h⟩ := bind_ok h
  cases hget
  rcases htime : trans[i]? with _ | time
  · simp only [htime] at h
    cases h
  rcases hidx : localtimes[i]? with _ | localIdx
  · simp only [htime, hidx] at h
    cases h
  rcases hl : d.localtimes[localIdx]? with _ | l
  · simp only [htime, hidx, hl] at h
    cases h
  simp only [htime, hidx, hl] at h
  split at h
  · cases h
    rfl
  · cases h

/-- A `try` block that gets through the sections has found them all. -/
theorem readSections_length {leapcnt timecnt typecnt charcnt : Int} {x rest : List UInt8}
    {d d' : Data} (h : readSections leapcnt timecnt typecnt charcnt x d = (.ok (), rest, d')) :
    5 * timecnt.toNat + 6 * typecnt.toNat + charcnt.toNat ≤ x.length := by
  obtain ⟨u₁, x₁, d₁, hreserve, h⟩ := bind_ok h
  obtain ⟨trans, x₂, d₂, htimes, h⟩ := bind_ok h
  obtain ⟨localtimes, x₃, d₃, hidxs, h⟩ := bind_ok h
  obtain ⟨u₄, x₄, d₄, htypes, h⟩ := bind_ok h
  obtain ⟨u₅, x₅, d₅, htrans, h⟩ := bind_ok h
  obtain ⟨abbreviation, x₆, d₆, hchars, h⟩ := bind_ok h
  have hsame : x₁ = x := by
    unfold reserve at hreserve
    split at hreserve
    · cases hreserve
    · exact (pure_ok hreserve).2
  subst hsame
  have htimes := loop_ok (fun _ _ _ _ _ _ => readInt32_length) htimes
  have hidxs := loop_ok (fun _ _ _ _ _ _ => readUInt8_length) hidxs
  have htypes := loop_ok (fun _ _ _ _ _ _ => readLocaltime_length) htypes
  have htrans := loop_ok (k := 0) (fun _ _ _ _ _ _ => addTransition_length) htrans
  obtain ⟨hchars, -, -⟩ := readBytes_ok hchars
  omega

theorem readCounts_length {x rest : List UInt8} {d d' : Data}
    (h : readCounts x d = (.ok (), rest, d')) :
    24 + 5 * (countIn x 3).toNat + 6 * (countIn x 4).toNat + (countIn x 5).toNat ≤ x.length := by
  obtain ⟨isgmtcnt, x₁, d₁, hisgmt, h⟩ := bind_ok h
  obtain ⟨isstdcnt, x₂, d₂, hisstd, h⟩ := bind_ok h
  obtain ⟨leapcnt, x₃, d₃, hleap, h⟩ := bind_ok h
  obtain ⟨timecnt, x₄, d₄, htime, h⟩ := bind_ok h
  obtain ⟨typecnt, x₅, d₅, htype, h⟩ := bind_ok h
  obtain ⟨charcnt, x₆, d₆, hchar, h⟩ := bind_ok h
  have hsections := readSections_length h
  obtain ⟨-, -, rfl⟩ := readInt32_ok hisgmt
  obtain ⟨-, -, rfl⟩ := readInt32_ok hisstd
  obtain ⟨-, -, rfl⟩ := readInt32_ok hleap
  obtain ⟨-, htimecnt, rfl⟩ := readInt32_ok htime
  obtain ⟨-, htypecnt, rfl⟩ := readInt32_ok htype
  obtain ⟨hlen, hcharcnt, rfl⟩ := readInt32_ok hchar
  simp only [List.drop_drop, List.length_drop] at htimecnt htypecnt hlen hcharcnt hsections
  simp only [countIn, ← htimecnt, ← htypecnt, ← hcharcnt]
  omega

theorem checkHead_ok {head x rest : List UInt8} {d d' : Data}
    (h : checkHead head x d = (.ok (), rest, d')) : head = magic ∧ rest = x := by
  unfold checkHead at h
  split at h
  · next hhead => exact ⟨hhead, (pure_ok h).2⟩
  · cases h

theorem readData_complete {content rest : List UInt8} {d d' : Data}
    (h : readData content d = (.ok (), rest, d')) : ¬ BadFile (some content) := by
  obtain ⟨head, x₁, d₁, hhead, h⟩ := bind_ok h
  obtain ⟨u, x₂, d₂, hcheck, h⟩ := bind_ok h
  obtain ⟨version, x₃, d₃, hversion, h⟩ := bind_ok h
  obtain ⟨reserved, x₄, d₄, hreserved, h⟩ := bind_ok h
  have hcounts := readCounts_length h
  obtain ⟨-, rfl, rfl⟩ := readBytes_ok hhead
  obtain ⟨hmagic, rfl⟩ := checkHead_ok hcheck
  obtain ⟨-, -, rfl⟩ := readBytes_ok hversion
  obtain ⟨-, -, rfl⟩ := readBytes_ok hreserved
  have hdrop : ((content.drop (Int.toNat 4)).drop (Int.toNat 1)).drop (Int.toNat 15) =
      content.drop 20 := by
    simp [List.drop_drop]
  rw [hdrop, List.length_drop] at hcounts
  intro hbad
  rcases hbad with hhead | hlen
  · exact hhead hmagic
  · rw [announcedLength] at hlen
    omega

/-- The handler only prints the message and the function returns `true` on every path. -/
theorem readTimeZoneFile_success {zonefile : Option (List UInt8)} {data : Data}
    {result : ReadResult} (h : readTimeZoneFile zonefile data = .ok result) :
    result.success = true := by
  unfold readTimeZoneFile at h
  split at h
  · cases h
    rfl
  · split at h
    · cases h
      rfl
    · cases h
      rfl
    · cases h

/-- A bad file never gives an invalid zone: the zone is valid, without data if the file did not
open, with what had been read when the exception was thrown otherwise. -/
theorem ofFile_bad {zonefile : Option (List UInt8)} (hbad : BadFile zonefile) :
    (¬ ∃ tz, ofFile zonefile = .ok tz ∧ valid tz = false) ∧
      (zonefile = none ∧ ofFile zonefile = .ok (some .empty) ∨
        ∃ content error rest data, zonefile = some content ∧
          readData content .empty = (.error error, rest, data) ∧
          ∀ what, error = .logicError what → ofFile zonefile = .ok (some data)) := by
  refine ⟨?_, ?_⟩
  · rintro ⟨tz, htz, hinvalid⟩
    obtain ⟨result, hread, h⟩ := Except.bind_ok htz
    rw [readTimeZoneFile_success hread] at h
    cases h
    cases hinvalid
  · cases zonefile with
    | none => exact .inl ⟨rfl, rfl⟩
    | some content =>
      rcases hread : readData content .empty with ⟨result, rest, data⟩
      cases result with
      | ok u => exact absurd hbad (readData_complete hread)
      | error error =>
        refine .inr ⟨content, error, rest, data, rfl, hread, ?_⟩
        rintro what rfl
        simp only [ofFile, readTimeZoneFile, hread]
        rfl

theorem ofFile_bad_head :
    BadFile (some [84, 90, 105, 103, 50]) ∧
      ¬ ∃ tz, ofFile (some [84, 90, 105, 103, 50]) = .ok tz ∧ valid tz = false :=
  ⟨by decide, (ofFile_bad (by decide)).1⟩

/-- The abbreviations are cut short: the types and transitions stay usable. -/
theorem summer_truncated_valid :
    BadFile (some (summer.encode.take 66)) ∧
      ofFile (some (summer.encode.take 66)) =
        .ok (some ⟨[⟨-100, 3500, 1⟩], [⟨0, false, 0⟩, ⟨3600, true, 4⟩], []⟩) ∧
      valid (some ⟨[⟨-100, 3500, 1⟩], [⟨0, false, 0⟩, ⟨3600, true, 4⟩], []⟩) = true ∧
      toLocalTime (some ⟨[⟨-100, 3500, 1⟩], [⟨0, false, 0⟩, ⟨3600, true, 4⟩], []⟩) (-200) =
        .ok { gmtimeR (-200) with zone := [] } := by
  refine ⟨by decide, ?_, rfl, ?_⟩
  · decide +kernel
  · decide +kernel

end TimeZone

end Rawmd
