import Rawmd.Base.TimeZoneFile
import Rawmd.Base.TimeZoneLocal

/-!
# `base/TimeZone.cpp`: the indices of a zone file

The counts of a zone file, its type indices and its abbreviation indices are independent bytes,
and `readTimeZoneFile` compares none of them.  For any content the `try` block ends in one of
three ways (`readSections_outcome`): a `logic_error`, an access outside `data->localtimes` (or a
negative array length), or data with just the indices that the file holds.

    no exception → every index is in range ↔ the bytes say so           (indicesInRange_iff)
-/

namespace Rawmd

open MachineInt Reader

namespace TimeZone

/-! ## The bytes of a file -/

def timecntOf (content : List UInt8) : Nat := (countIn (content.drop 20) 3).toNat

def typecntOf (content : List UInt8) : Nat := (countIn (content.drop 20) 4).toNat

def charcntOf (content : List UInt8) : Int := countIn (content.drop 20) 5

/-- The byte that is the type index of transition `i`. -/
def typeIdxByte (content : List UInt8) (i : Nat) : Nat :=
  (content.getD (44 + 4 * timecntOf content + i) 0).toNat

/-- The byte that is the abbreviation index of type `j`. -/
def abbrindByte (content : List UInt8) (j : Nat) : Nat :=
  (content.getD (44 + 5 * timecntOf content + 6 * j + 5) 0).toNat

/-- There is a type, and the index bytes are below the counts. -/
def IndexBytesInRange (content : List UInt8) : Prop :=
  0 < typecntOf content ∧ (∀ i < timecntOf content, typeIdxByte content i < typecntOf content) ∧
    ∀ j < typecntOf content, (abbrindByte content j : Int) < charcntOf content

/-- The exceptions of the `try` block. -/
def IsLogicError (error : ReadError) : Prop := ∃ what, error = .logicError what

/-- Nothing is thrown: the file is read to its end, unless the language leaves undefined what an
access on the way does. -/
def ReadsToEnd (content : List UInt8) : Prop := ¬ Throws IsLogicError (readData content .empty)

/-- No access during loading is out of range, and none of the conversions is. -/
structure Data.Loaded (content : List UInt8) (data : Data) : Prop where
  read : readTimeZoneFile (some content) .empty = .ok ⟨true, data, ""⟩
  localtimes : data.localtimes ≠ []
  transitions : ∀ t ∈ data.transitions, t.localtimeIdx < data.localtimes.length
  abbreviation : ∀ l ∈ data.localtimes, l.arrbIdx < data.abbreviation.length
  findLocaltime : ∀ sentry comp, ∃ l, findLocaltime data sentry comp = .ok l
  toLocalTime : ∀ seconds, ∃ tm, toLocalTime (some data) seconds = .ok tm
  fromLocalTime : ∀ tm, ∃ seconds, fromLocalTime (some data) tm = .ok seconds

/-! ## The conversions -/

theorem fromLocalTime_inRange {data : Data} (h : data.InRange) (localTm : Tm) :
    ∃ seconds, fromLocalTime (some data) localTm = .ok seconds := by
  obtain ⟨l, -, hfind⟩ := findLocaltime_ok h ⟨0, timegm localTm, 0⟩ ⟨false⟩
  obtain ⟨l', -, zone, hlocal⟩ := toLocalTime_inRange h (timegm localTm - l.gmtOffset)
  simp only [fromLocalTime, hfind, hlocal, bind, Except.bind]
  split
  · split <;> exact ⟨_, rfl⟩
  · exact ⟨_, rfl⟩

theorem Data.Loaded.of_indices {content : List UInt8} {data : Data}
    (hread : readTimeZoneFile (some content) .empty = .ok ⟨true, data, ""⟩)
    (hne : data.localtimes ≠ [])
    (htrans : ∀ t ∈ data.transitions, t.localtimeIdx < data.localtimes.length)
    (habbr : ∀ l ∈ data.localtimes, l.arrbIdx < data.abbreviation.length) :
    data.Loaded content := by
  have hin : data.InRange :=
    ⟨List.length_pos_of_ne_nil hne, htrans, fun l hl => Nat.le_of_lt (habbr l hl)⟩
  refine ⟨hread, hne, htrans, habbr, ?_, ?_, fromLocalTime_inRange hin⟩
  · intro sentry comp
    obtain ⟨l, -, hl⟩ := findLocaltime_ok hin sentry comp
    exact ⟨l, hl⟩
  · intro seconds
    obtain ⟨l, -, zone, htm⟩ := toLocalTime_inRange hin seconds
    exact ⟨_, htm⟩

/-! ## The readers -/

theorem bigEndian_byte (x : List UInt8) (i : Nat) :
    bigEndian ((x.drop i).take 1) = (x.getD i 0).toNat := by
  rw [List.getD_eq_getElem?_getD]
  by_cases hi : i < x.length
  · rw [List.drop_eq_getElem_cons hi, List.getElem?_eq_getElem hi]
    show 256 * 0 + x[i].toNat = x[i].toNat
    omega
  · rw [List.drop_of_length_le (Nat.le_of_not_lt hi), List.getElem?_eq_none (Nat.le_of_not_lt hi)]
    rfl

theorem consumes_int32 : Consumes readInt32 4 (fun bytes => wrap 32 (bigEndian bytes))
    (fun _ d => d) IsLogicError := by
  intro x d
  rcases Consumes.take 4 (E := IsLogicError) ⟨"bad int32_t data", rfl⟩ x d with hthrow | ⟨hlen, hok⟩
  · exact .inl hthrow.bind
  · exact .inr ⟨hlen, bind_of_ok hok⟩

theorem consumes_uint8 : Consumes readUInt8 1 bigEndian (fun _ d => d) IsLogicError := by
  intro x d
  rcases Consumes.take 1 (E := IsLogicError) ⟨"bad uint8_t data", rfl⟩ x d with hthrow | ⟨hlen, hok⟩
  · exact .inl hthrow.bind
  · exact .inr ⟨hlen, bind_of_ok hok⟩

/-- The type that six bytes describe. -/
def localtimeOf (bytes : List UInt8) : Localtime :=
  ⟨wrap 32 (bigEndian (bytes.take 4)), bigEndian ((bytes.drop 4).take 1) != 0,
    bigEndian ((bytes.drop 5).take 1)⟩

theorem consumes_localtime : Consumes readLocaltime 6 (fun _ => ())
    (fun bytes => pushLocaltime (localtimeOf bytes)) IsLogicError := by
  intro x d
  unfold readLocaltime
  rcases consumes_int32 x d with hthrow | ⟨hlen, hok⟩
  · exact .inl hthrow.bind
  rw [bind_of_ok hok]
  rcases consumes_uint8 (x.drop 4) d with hthrow | ⟨hlen₁, hok₁⟩
  · exact .inl hthrow.bind
  rw [bind_of_ok hok₁]
  rcases consumes_uint8 ((x.drop 4).drop 1) d with hthrow | ⟨hlen₂, hok₂⟩
  · exact .inl hthrow.bind
  rw [bind_of_ok hok₂]
  simp only [List.length_drop, List.drop_drop] at hlen₁ hlen₂ ⊢
  refine .inr ⟨by omega, ?_⟩
  simp only [localtimeOf, List.take_take, List.drop_take]
  rfl

section Transitions

variable {trans : List Int} {idxs : List Nat} {x : List UInt8} {d : Data}

/-- A round of the loop over the transitions, for numbers of 32 bits. -/
theorem addTransition_outcome (htrans : ∀ time ∈ trans, Fits 32 time)
    (hd : ∀ l ∈ d.localtimes, Fits 32 l.gmtOffset) {i idx : Nat} (hi : i < trans.length)
    (hidx : idxs[i]? = some idx) :
    idx < d.localtimes.length ∧
        (∃ t, t.localtimeIdx = idx ∧
          addTransition trans idxs i x d = (.ok (), x, pushTransition t d)) ∨
      d.localtimes.length ≤ idx ∧ addTransition trans idxs i x d = (.error .undefined, x, d) := by
  unfold addTransition
  have hget : (get : FileReader Data) x d = (.ok d, x, d) := rfl
  rw [bind_of_ok hget, List.getElem?_eq_getElem hi, hidx]
  dsimp only
  by_cases hlt : idx < d.localtimes.length
  · left
    rw [List.getElem?_eq_getElem hlt]
    dsimp only
    rw [if_pos (fits_add (htrans _ (List.getElem_mem hi)) (hd _ (List.getElem_mem hlt)))]
    exact ⟨hlt, _, rfl, rfl⟩
  · right
    rw [List.getElem?_eq_none (Nat.le_of_not_lt hlt)]
    exact ⟨Nat.le_of_not_lt hlt, rfl⟩

/-- What the loop leaves besides its transitions, and that their indices are in range. -/
structure Extends (d d' : Data) : Prop where
  localtimes : d'.localtimes = d.localtimes
  abbreviation : d'.abbreviation = d.abbreviation
  transitions : ∀ t ∈ d'.transitions, t ∈ d.transitions ∨ t.localtimeIdx < d.localtimes.length

theorem addTransitions_outcome (htrans : ∀ time ∈ trans, Fits 32 time)
    (hlen : trans.length = idxs.length) (rounds start : Nat)
    (hrounds : start + rounds = idxs.length)
    (hd : ∀ l ∈ d.localtimes, Fits 32 l.gmtOffset) :
    (∀ i idx : Nat, start ≤ i → idxs[i]? = some idx → idx < d.localtimes.length) ∧
        (∃ us d', loopFrom (addTransition trans idxs) start rounds x d = (.ok us, x, d') ∧
          Extends d d') ∨
      (∃ i idx : Nat, idxs[i]? = some idx ∧ d.localtimes.length ≤ idx) ∧
        ∃ d', loopFrom (addTransition trans idxs) start rounds x d =
          (.error .undefined, x, d') := by
  induction rounds generalizing start d with
  | zero =>
    refine .inl ⟨?_, [], d, rfl, rfl, rfl, fun t ht => .inl ht⟩
    intro i idx hi hidx
    have := (List.getElem?_eq_some_iff.1 hidx).1
    omega
  | succ rounds ih =>
    have hidx := List.getElem?_eq_getElem (l := idxs) (i := start) (by omega)
    rw [loopFrom]
    rcases addTransition_outcome (x := x) htrans hd (by omega) hidx with
      ⟨hlt, t, ht, hok⟩ | ⟨hge, herr⟩
    · rw [bind_of_ok hok]
      rcases ih (d := pushTransition t d) (start + 1) (by omega) hd with
        ⟨hall, us, d', hloop, hext⟩ | ⟨hbad, d', hloop⟩
      · left
        refine ⟨?_, () :: us, d', ?_, hext.localtimes, hext.abbreviation, ?_⟩
        · intro i idx hi hidx'
          rcases Nat.lt_or_eq_of_le hi with hi | rfl
          · exact hall i idx hi hidx'
          · rw [hidx] at hidx'
            cases hidx'
            exact hlt
        · rw [bind_of_ok hloop]
          rfl
        · intro u hu
          rcases hext.transitions u hu with hu | hu
          · rcases List.mem_append.1 hu with hu | hu
            · exact .inl hu
            · rw [List.mem_singleton.1 hu, ht]
              exact .inr hlt
          · exact .inr hu
      · exact .inr ⟨hbad, d', bind_of_error hloop⟩
    · exact .inr ⟨⟨start, _, hidx, hge⟩, d, bind_of_error herr⟩

end Transitions

/-! ## The whole file -/

theorem readBytes_outcome (n : Int) (x : List UInt8) (d : Data) :
    Throws IsLogicError (readBytes n x d) ∨
    (0 ≤ n ∧ ∃ bytes rest, bytes.length = n.toNat ∧ readBytes n x d = (.ok bytes, rest, d)) ∨
    (n < 0 ∧ readBytes n x d = (.error .undefined, x, d)) := by
  unfold readBytes
  by_cases hn : n < 0
  · rw [if_pos hn]
    exact .inr (.inr ⟨hn, rfl⟩)
  · rw [if_neg hn]
    rcases Consumes.take n.toNat (E := IsLogicError) ⟨"no enough data", rfl⟩ x d with
      hthrow | ⟨hlen, hok⟩
    · exact .inl hthrow
    · exact .inr (.inl ⟨Int.not_lt.1 hn, _, _, by simpa using hlen, hok⟩)

/-- The statements after the types. -/
def readRest (leapcnt timecnt charcnt : Int) (trans : List Int) (localtimes : List Nat) :
    FileReader Unit := do
  let _ ← loop timecnt (addTransition trans localtimes)
  let abbreviation ← readBytes charcnt
  modify fun data => { data with abbreviation := abbreviation }
  let _ ← loop leapcnt fun _ => pure ()

theorem readRest_outcome (leapcnt timecnt charcnt : Int) {trans : List Int} {idxs : List Nat}
    {types : List Localtime} (htrans : ∀ time ∈ trans, Fits 32 time)
    (hlen : trans.length = idxs.length) (hidxs : idxs.length = timecnt.toNat)
    (htypes : ∀ l ∈ types, Fits 32 l.gmtOffset) (x : List UInt8) :
    Throws IsLogicError (readRest leapcnt timecnt charcnt trans idxs x ⟨[], types, []⟩) ∨
    ((∀ idx ∈ idxs, idx < types.length) ∧ 0 ≤ charcnt ∧
      ∃ rest data,
        readRest leapcnt timecnt charcnt trans idxs x ⟨[], types, []⟩ = (.ok (), rest, data) ∧
        data.localtimes = types ∧ (∀ t ∈ data.transitions, t.localtimeIdx < types.length) ∧
        data.abbreviation.length = charcnt.toNat) ∨
    (((∃ idx ∈ idxs, types.length ≤ idx) ∨ charcnt < 0) ∧
      ∃ rest data, readRest leapcnt timecnt charcnt trans idxs x ⟨[], types, []⟩ =
        (.error .undefined, rest, data)) := by
  unfold readRest
  rcases addTransitions_outcome (x := x) (d := ⟨[], types, []⟩) htrans hlen timecnt.toNat 0
    (by omega) htypes with ⟨hall, us, d', hloop, hext⟩ | ⟨⟨i, idx, hidx, hge⟩, d', hloop⟩
  · change loop timecnt (addTransition trans idxs) x _ = _ at hloop
    rw [bind_of_ok hloop]
    rcases readBytes_outcome charcnt x d' with hthrow | ⟨hchar, bytes, rest, hbytes, hok⟩ |
      ⟨hchar, herr⟩
    · exact .inl hthrow.bind
    · rw [bind_of_ok hok]
      have hleap :=
        Reads.loop_pure (ε := ReadError) leapcnt () { d' with abbreviation := bytes } rest
      refine .inr (.inl ⟨?_, hchar, rest, { d' with abbreviation := bytes }, ?_, hext.localtimes,
        ?_, hbytes⟩)
      · intro idx hidx
        obtain ⟨i, hi⟩ := List.getElem?_of_mem hidx
        exact hall i idx (Nat.zero_le i) hi
      · exact bind_of_ok hleap
      · intro t ht
        exact (hext.transitions t ht).resolve_left List.not_mem_nil
    · exact .inr (.inr ⟨.inr hchar, x, d', bind_of_error herr⟩)
  · exact .inr (.inr ⟨.inl ⟨idx, List.mem_of_getElem? hidx, hge⟩, x, d', bind_of_error hloop⟩)

/-! What the sections of `t` transitions and `n` types hold. -/

def timesIn (t : Nat) (x : List UInt8) : List Int :=
  (List.range t).map fun i => wrap 32 (bigEndian (chunk 4 x i))

def typeIdxsIn (t : Nat) (x : List UInt8) : List Nat :=
  (List.range t).map fun i => bigEndian (chunk 1 (x.drop (4 * t)) i)

def typesIn (t n : Nat) (x : List UInt8) : List Localtime :=
  (List.range n).map fun j => localtimeOf (chunk 6 (x.drop (5 * t)) j)

theorem fits_timesIn {t : Nat} {x : List UInt8} : ∀ time ∈ timesIn t x, Fits 32 time := by
  intro time htime
  obtain ⟨i, -, rfl⟩ := List.mem_map.1 htime
  exact wrap_fits (by decide) (bigEndian (chunk 4 x i))

theorem fits_typesIn {t n : Nat} {x : List UInt8} :
    ∀ l ∈ typesIn t n x, Fits 32 l.gmtOffset := by
  intro l hl
  obtain ⟨j, -, rfl⟩ := List.mem_map.1 hl
  rw [localtimeOf]
  dsimp only
  exact wrap_fits (by decide) _

theorem length_typesIn (t n : Nat) (x : List UInt8) : (typesIn t n x).length = n := by
  simp [typesIn]

theorem mem_typeIdxsIn {t idx : Nat} {x : List UInt8} :
    idx ∈ typeIdxsIn t x ↔ ∃ i < t, (x.getD (4 * t + i) 0).toNat = idx := by
  have hbyte (i : Nat) : bigEndian (chunk 1 (x.drop (4 * t)) i) =
      (x.getD (4 * t + i) 0).toNat := by
    rw [chunk, List.drop_drop, Nat.one_mul, bigEndian_byte]
  simp only [typeIdxsIn, List.mem_map, List.mem_range, hbyte]

theorem readTypes_outcome (timecnt typecnt : Int) (x : List UInt8) :
    Throws IsLogicError
      (loop typecnt (fun _ => readLocaltime) (x.drop (5 * timecnt.toNat)) .empty) ∨
    ∃ us, loop typecnt (fun _ => readLocaltime) (x.drop (5 * timecnt.toNat)) .empty =
      (.ok us, (x.drop (5 * timecnt.toNat)).drop (6 * typecnt.toNat),
        ⟨[], typesIn timecnt.toNat typecnt.toNat x, []⟩) := by
  rcases Consumes.loop (n := typecnt) (fun _ => consumes_localtime) (x.drop (5 * timecnt.toNat))
    .empty with hthrow | ⟨-, hok⟩
  · exact .inl hthrow
  · rw [foldl_pushLocaltime] at hok
    exact .inr ⟨_, hok⟩

/-- For any bytes the sections before the abbreviations end in an exception, or what they hold is
passed on. -/
theorem readSections_eq (leapcnt timecnt typecnt charcnt : Int) (x : List UInt8) :
    Throws IsLogicError (readSections leapcnt timecnt typecnt charcnt x .empty) ∨
    readSections leapcnt timecnt typecnt charcnt x .empty =
      readRest leapcnt timecnt charcnt (timesIn timecnt.toNat x) (typeIdxsIn timecnt.toNat x)
        ((x.drop (5 * timecnt.toNat)).drop (6 * typecnt.toNat))
        ⟨[], typesIn timecnt.toNat typecnt.toNat x, []⟩ := by
  unfold readSections
  by_cases hneg : timecnt < 0
  · left
    refine Throws.bind ⟨.logicError "vector::reserve", x, .empty, ⟨_, rfl⟩, ?_⟩
    rw [reserve, if_pos hneg]
    rfl
  have hreserve : reserve timecnt x .empty = (.ok (), x, .empty) := by
    rw [reserve, if_neg hneg]
    rfl
  rw [bind_of_ok hreserve]
  rcases Consumes.loop (n := timecnt) (fun _ => consumes_int32) x .empty with hthrow | ⟨-, hok⟩
  · exact .inl hthrow.bind
  rw [List.foldl_fixed] at hok
  rw [bind_of_ok hok]
  rcases Consumes.loop (n := timecnt) (fun _ => consumes_uint8) (x.drop (4 * timecnt.toNat))
    .empty with hthrow | ⟨-, hok₁⟩
  · exact .inl hthrow.bind
  rw [List.foldl_fixed, List.drop_drop,
    show 4 * timecnt.toNat + 1 * timecnt.toNat = 5 * timecnt.toNat by omega] at hok₁
  rw [bind_of_ok hok₁]
  rcases readTypes_outcome timecnt typecnt x with hthrow | ⟨us, hok₂⟩
  · exact .inl hthrow.bind
  rw [bind_of_ok hok₂]
  exact .inr rfl

theorem readCounts_eq (x : List UInt8) :
    Throws IsLogicError (readCounts x .empty) ∨
    readCounts x .empty = readSections (countIn x 2) (countIn x 3) (countIn x 4) (countIn x 5)
      (x.drop 24) .empty := by
  unfold readCounts
  refine throws_or_trans (consumes_int32.bind _ _ _) ?_
  refine throws_or_trans (consumes_int32.bind _ _ _) ?_
  refine throws_or_trans (consumes_int32.bind _ _ _) ?_
  refine throws_or_trans (consumes_int32.bind _ _ _) ?_
  refine throws_or_trans (consumes_int32.bind _ _ _) ?_
  refine throws_or_trans (consumes_int32.bind _ _ _) ?_
  right
  simp only [List.drop_drop]
  rfl

theorem consumes_bytes (n : Nat) :
    Consumes (readBytes n) n id (fun _ d => d) IsLogicError := by
  rw [readBytes, if_neg (by omega), Int.toNat_natCast]
  exact Consumes.take n ⟨"no enough data", rfl⟩

/-- The header is checked, its counts are passed on. -/
theorem readData_eq (content : List UInt8) :
    Throws IsLogicError (readData content .empty) ∨
    readData content .empty = readSections (countIn (content.drop 20) 2)
      (countIn (content.drop 20) 3) (countIn (content.drop 20) 4) (countIn (content.drop 20) 5)
      (content.drop 44) .empty := by
  unfold readData
  refine throws_or_trans ((consumes_bytes 4).bind _ _ _) ?_
  by_cases hhead : content.take 4 = magic
  · have hcheck : checkHead (id (content.take 4)) (content.drop 4) .empty =
        (.ok (), content.drop 4, .empty) := by
      rw [checkHead, id, if_pos hhead]
      rfl
    rw [bind_of_ok hcheck]
    refine throws_or_trans ((consumes_bytes 1).bind _ _ _) ?_
    refine throws_or_trans ((consumes_bytes 15).bind _ _ _) ?_
    have hcounts := readCounts_eq (content.drop 20)
    rw [List.drop_drop] at hcounts
    rw [List.drop_drop, List.drop_drop]
    exact hcounts
  · left
    refine Throws.bind ⟨.logicError "bad head", content.drop 4, .empty, ⟨_, rfl⟩, ?_⟩
    rw [checkHead, id, if_neg hhead]
    rfl

theorem readSections_outcome (leapcnt timecnt typecnt charcnt : Int) (x : List UInt8) :
    Throws IsLogicError (readSections leapcnt timecnt typecnt charcnt x .empty) ∨
    ((∀ i < timecnt.toNat, (x.getD (4 * timecnt.toNat + i) 0).toNat < typecnt.toNat) ∧
      0 ≤ charcnt ∧
      ∃ rest data, readSections leapcnt timecnt typecnt charcnt x .empty = (.ok (), rest, data) ∧
        data.localtimes = typesIn timecnt.toNat typecnt.toNat x ∧
        (∀ t ∈ data.transitions, t.localtimeIdx < data.localtimes.length) ∧
        data.abbreviation.length = charcnt.toNat) ∨
    (((∃ i < timecnt.toNat, typecnt.toNat ≤ (x.getD (4 * timecnt.toNat + i) 0).toNat) ∨
        charcnt < 0) ∧
      ∃ rest data,
        readSections leapcnt timecnt typecnt charcnt x .empty =
          (.error .undefined, rest, data)) := by
  rcases readSections_eq leapcnt timecnt typecnt charcnt x with hthrow | heq
  · exact .inl hthrow
  have hlen := length_typesIn timecnt.toNat typecnt.toNat x
  have htimes : (timesIn timecnt.toNat x).length = (typeIdxsIn timecnt.toNat x).length := by
    simp [timesIn, typeIdxsIn]
  have hidxs : (typeIdxsIn timecnt.toNat x).length = timecnt.toNat := by
    simp [typeIdxsIn]
  have hfits : ∀ l ∈ typesIn timecnt.toNat typecnt.toNat x, Fits 32 l.gmtOffset := fits_typesIn
  rw [heq]
  rcases readRest_outcome leapcnt timecnt charcnt fits_timesIn htimes hidxs hfits
    ((x.drop (5 * timecnt.toNat)).drop (6 * typecnt.toNat)) with
    hthrow | ⟨hall, hchar, rest, data, hok, hlocal, htrans, habbr⟩ | ⟨hbad, rest, data, herr⟩
  · exact .inl hthrow
  · refine .inr (.inl ⟨?_, hchar, rest, data, hok, hlocal, ?_, habbr⟩)
    · intro i hi
      have := hall _ (mem_typeIdxsIn.2 ⟨i, hi, rfl⟩)
      rwa [hlen] at this
    · rw [hlocal]
      exact htrans
  · refine .inr (.inr ⟨?_, rest, data, herr⟩)
    rcases hbad with ⟨idx, hidx, hge⟩ | hchar
    · obtain ⟨i, hi, rfl⟩ := mem_typeIdxsIn.1 hidx
      rw [hlen] at hge
      exact .inl ⟨i, hi, hge⟩
    · exact .inr hchar

/-- How the `try` block ends for any content: an exception, data with the indices of the bytes, or
an access that is undefined. -/
theorem readData_outcome (content : List UInt8) :
    Throws IsLogicError (readData content .empty) ∨
    ((∀ i < timecntOf content, typeIdxByte content i < typecntOf content) ∧
      0 ≤ charcntOf content ∧
      ∃ rest data, readData content .empty = (.ok (), rest, data) ∧
        data.localtimes = typesIn (timecntOf content) (typecntOf content) (content.drop 44) ∧
        (∀ t ∈ data.transitions, t.localtimeIdx < data.localtimes.length) ∧
        data.abbreviation.length = (charcntOf content).toNat) ∨
    (((∃ i < timecntOf content, typecntOf content ≤ typeIdxByte content i) ∨
        charcntOf content < 0) ∧
      ∃ rest data, readData content .empty = (.error .undefined, rest, data)) := by
  have hbyte (i : Nat) : typeIdxByte content i =
      ((content.drop 44).getD (4 * (countIn (content.drop 20) 3).toNat + i) 0).toNat := by
    rw [typeIdxByte, timecntOf, List.getD_eq_getElem?_getD, List.getD_eq_getElem?_getD,
      List.getElem?_drop, Nat.add_assoc]
  rcases readData_eq content with hthrow | heq
  · exact .inl hthrow
  · have houtcome := readSections_outcome (countIn (content.drop 20) 2)
      (countIn (content.drop 20) 3) (countIn (content.drop 20) 4) (countIn (content.drop 20) 5)
      (content.drop 44)
    rw [← heq] at houtcome
    simp only [hbyte]
    exact houtcome

theorem arrbIdx_chunk (content : List UInt8) (t j : Nat) :
    (localtimeOf (chunk 6 ((content.drop 44).drop (5 * t)) j)).arrbIdx =
      (content.getD (44 + 5 * t + 6 * j + 5) 0).toNat := by
  rw [← bigEndian_byte, localtimeOf, chunk]
  dsimp only
  rw [List.drop_take, List.take_take, List.drop_drop, List.drop_drop, List.drop_drop,
    show 44 + (5 * t + (6 * j + 5)) = 44 + 5 * t + 6 * j + 5 by omega]
  rfl

theorem abbrindByte_eq (content : List UInt8) (j : Nat) :
    (localtimeOf (chunk 6 ((content.drop 44).drop (5 * timecntOf content)) j)).arrbIdx =
      abbrindByte content j := by
  rw [arrbIdx_chunk, abbrindByte]

/-- A file that is read to its end has all indices in range exactly if its bytes have: nothing in
the code compares them. -/
theorem indicesInRange_iff {content : List UInt8} (h : ReadsToEnd content) :
    (∃ data : Data, data.Loaded content) ↔ IndexBytesInRange content := by
  rcases readData_outcome content with
    hthrow | ⟨hidx, hchar, rest, data, hok, htypes, htrans, habbr⟩ | ⟨hbad, rest, data, herr⟩
  · exact absurd hthrow h
  · have hread : readTimeZoneFile (some content) .empty = .ok ⟨true, data, ""⟩ := by
      rw [readTimeZoneFile, hok]
    have hlen : data.localtimes.length = typecntOf content := by
      rw [htypes, length_typesIn]
    constructor
    · rintro ⟨data', hloaded⟩
      cases hread.symm.trans hloaded.read
      refine ⟨hlen ▸ List.length_pos_of_ne_nil hloaded.localtimes, hidx, ?_⟩
      intro j hj
      have hmem : localtimeOf (chunk 6 ((content.drop 44).drop (5 * timecntOf content)) j) ∈
          data.localtimes := by
        rw [htypes]
        exact List.mem_map.2 ⟨j, List.mem_range.2 hj, rfl⟩
      have := hloaded.abbreviation _ hmem
      rw [abbrindByte_eq, habbr] at this
      omega
    · rintro ⟨hpos, -, habbrind⟩
      refine ⟨data, .of_indices hread (List.ne_nil_of_length_pos (hlen ▸ hpos)) htrans ?_⟩
      intro l hl
      rw [htypes] at hl
      obtain ⟨j, hj, rfl⟩ := List.mem_map.1 hl
      have := habbrind j (List.mem_range.1 hj)
      rw [abbrindByte_eq, habbr]
      omega
  · have hread : readTimeZoneFile (some content) .empty = .error .undefined := by
      rw [readTimeZoneFile, herr]
    constructor
    · rintro ⟨data', hloaded⟩
      cases hread.symm.trans hloaded.read
    · rintro ⟨hpos, hidx, habbrind⟩
      rcases hbad with ⟨i, hi, hge⟩ | hchar
      · have := hidx i hi
        omega
      · have := habbrind 0 hpos
        omega

/-- A file with one transition, one type and the abbreviation `UTC`. -/
def oneType : List UInt8 :=
  magic ++ List.replicate 16 0 ++ List.replicate 15 0 ++ [1, 0, 0, 0, 1, 0, 0, 0, 4] ++
    [0, 0, 0, 9] ++ [0] ++ [0, 0, 0, 0, 0, 0] ++ [85, 84, 67, 0]

theorem oneType_indices : ReadsToEnd oneType ∧ ∃ data : Data, data.Loaded oneType := by
  have hread : ReadsToEnd oneType := by
    rintro ⟨e, rest, d, ⟨what, rfl⟩, h⟩
    have hok : (readData oneType .empty).1 = .ok () := by decide +kernel
    rw [h] at hok
    cases hok
  refine ⟨hread, (indicesInRange_iff hread).2 ?_⟩
  refine ⟨by decide +kernel, by decide +kernel, by decide +kernel⟩

/-- A file that announces nothing: it is read to its end, and the zone has no type to convert
with. -/
def noTypes : List UInt8 := magic ++ List.replicate 40 0

theorem noTypes_indices :
    ReadsToEnd noTypes ∧
      readTimeZoneFile (some noTypes) .empty = .ok ⟨true, .empty, ""⟩ ∧
      (Data.empty).localtimes = [] ∧
      toLocalTime (some .empty) 0 = .error .index ∧
      ¬ ∃ data : Data, data.Loaded noTypes := by
  have hok : readData noTypes .empty = (.ok (), [], .empty) := by decide +kernel
  have hread : readTimeZoneFile (some noTypes) .empty = .ok ⟨true, .empty, ""⟩ := by
    rw [readTimeZoneFile, hok]
  refine ⟨?_, hread, rfl, rfl, ?_⟩
  · rintro ⟨e, rest, d, -, h⟩
    rw [hok] at h
    cases h
  · rintro ⟨data, hloaded⟩
    cases hread.symm.trans hloaded.read
    exact hloaded.localtimes rfl

end TimeZone

end Rawmd
