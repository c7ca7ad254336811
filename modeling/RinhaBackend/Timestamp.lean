import RinhaBackend.Foundation.Calendar
import RinhaBackend.Foundation.Text

/-!
# Timestamps

`parse_timestamp_ms` reads the bounds of a summary request and
`create_processor_payload` stamps each payload with a `requestedAt` that is
formatted once per second and thread.  `DateTime` is the calendar date and time
that both texts stand for.
-/

namespace RinhaBackend

open Foundation
open Foundation.Calendar

/-! ## Broken-down time -/

structure Tm where
  year : Int
  mon : Int
  mday : Int
  hour : Int
  min : Int
  sec : Int
  deriving DecidableEq, Repr

/-- `gmtime_r`: years count from 1900 and months from zero. -/
def gmtimeR (now : Nat) : Tm :=
  let date := civilOfDay (now / 86400 : Nat)
  { year := date.1 - 1900
    mon := date.2.1
    mday := date.2.2
    hour := (now % 86400 / 3600 : Nat)
    min := (now % 3600 / 60 : Nat)
    sec := (now % 60 : Nat) }

/-- `timegm`, which first carries months outside a year into the year. -/
def timegm (tm : Tm) : Int :=
  86400 * dayNumber (tm.year + 1900 + tm.mon / 12) (tm.mon % 12).toNat tm.mday +
    3600 * tm.hour + 60 * tm.min + tm.sec

/-- The format `%4d-%2d-%2dT%2d:%2d:%2d.%3dZ`. -/
def timestampFormat : List Directive :=
  [.int 4, .char 45, .int 2, .char 45, .int 2, .char 84, .int 2, .char 58,
    .int 2, .char 58, .int 2, .char 46, .int 3, .char 90]

def parseTimestampMs (ts : Bytes) : UInt64 :=
  match scanf timestampFormat (ts.takeWhile (· != 0)) with
  | [year, mon, mday, hour, min, sec, ms] =>
      let seconds := timegm ⟨year - 1900, mon - 1, mday, hour, min, sec⟩
      UInt64.ofInt seconds * 1000 + UInt64.ofInt ms
  | _ => 0

/-! ## The stamp of a payload -/

/-- `snprintf` with `%04d-%02d-%02dT%02d:%02d:%02d.000Z`. -/
def formatRequestedAt (tm : Tm) : Bytes :=
  zeroPad 4 (tm.year + 1900).toNat ++ 45 :: (zeroPad 2 (tm.mon + 1).toNat ++
    45 :: (zeroPad 2 tm.mday.toNat ++ 84 :: (zeroPad 2 tm.hour.toNat ++
      58 :: (zeroPad 2 tm.min.toNat ++ 58 :: (zeroPad 2 tm.sec.toNat ++
        ascii ".000Z")))))

/--
The thread-local variables of `create_processor_payload`: the first `ts_len`
bytes of `requestedAt`, and the second they were formatted for.
-/
structure TimestampCache where
  requestedAt : Bytes
  lastSec : Nat
  deriving DecidableEq, Repr

def TimestampCache.initial : TimestampCache := ⟨[], 0⟩

def TimestampCache.refresh (cache : TimestampCache) (now : Nat) : TimestampCache :=
  if now ≠ cache.lastSec then ⟨formatRequestedAt (gmtimeR now), now⟩ else cache

def requestedAtKey : Bytes := ascii ",\"requestedAt\":\""

def requestedAtEnd : Bytes := ascii "\"\x7d"

/--
The payload, the epoch second returned with it and the thread's cache after the
call at clock reading `now`.  `pop_back` on an empty string has no result.
-/
def createProcessorPayload (cache : TimestampCache) (now : Nat) (json : Bytes) :
    Option (Bytes × UInt64 × TimestampCache) :=
  if json = [] then none
  else
    let cache := cache.refresh now
    some (json.dropLast ++ requestedAtKey ++ cache.requestedAt ++ requestedAtEnd,
      UInt64.ofNat now, cache)

/-! ## Dates and times -/

structure DateTime where
  year : Nat
  month : Nat
  day : Nat
  hour : Nat
  minute : Nat
  second : Nat
  month_valid : 1 ≤ month ∧ month ≤ 12
  day_valid : 1 ≤ day ∧ day ≤ daysInMonth (leapDay year) (month - 1)
  hour_valid : hour < 24
  minute_valid : minute < 60
  second_valid : second < 60

namespace DateTime

def epochSecond (date : DateTime) : Int :=
  86400 * dayNumber date.year (date.month - 1) date.day + 3600 * date.hour +
    60 * date.minute + date.second

/-- `YYYY-MM-DDTHH:MM:SS.mmmZ`; years after 9999 have more than four digits. -/
def render (date : DateTime) (millis : Nat) : Bytes :=
  zeroPad 4 date.year ++ 45 :: (zeroPad 2 date.month ++
    45 :: (zeroPad 2 date.day ++ 84 :: (zeroPad 2 date.hour ++
      58 :: (zeroPad 2 date.minute ++ 58 :: (zeroPad 2 date.second ++
        46 :: (zeroPad 3 millis ++ [90]))))))

theorem day_lt (date : DateTime) : date.day < 100 := by
  have hlength := daysInMonth_le (leapDay_bounds date.year).2
    (show date.month - 1 ≤ 11 by have := date.month_valid; omega)
  have hday := date.day_valid
  omega

def ofEpoch (now : Nat) : DateTime where
  year := (civilOfDay (now / 86400 : Nat)).1.toNat
  month := (civilOfDay (now / 86400 : Nat)).2.1 + 1
  day := (civilOfDay (now / 86400 : Nat)).2.2.toNat
  hour := now % 86400 / 3600
  minute := now % 3600 / 60
  second := now % 60
  month_valid := by
    have hbounds := civilOfDay_bounds (now / 86400 : Nat)
    omega
  day_valid := by
    have hbounds := civilOfDay_bounds (now / 86400 : Nat)
    have hyear := civilOfDay_year (Int.natCast_nonneg (now / 86400))
    rw [Int.toNat_of_nonneg (a := (civilOfDay _).1) (by omega), Nat.add_sub_cancel]
    omega
  hour_valid := by omega
  minute_valid := by omega
  second_valid := by omega

theorem epochSecond_ofEpoch (now : Nat) : (ofEpoch now).epochSecond = now := by
  have hbounds := civilOfDay_bounds (now / 86400 : Nat)
  have hyear := civilOfDay_year (Int.natCast_nonneg (now / 86400))
  have hday := dayNumber_civilOfDay (now / 86400 : Nat)
  simp only [epochSecond, ofEpoch, Nat.add_sub_cancel]
  rw [Int.toNat_of_nonneg (by omega), Int.toNat_of_nonneg (by omega), hday]
  omega

theorem formatRequestedAt_gmtimeR (now : Nat) :
    formatRequestedAt (gmtimeR now) = (ofEpoch now).render 0 := by
  have hmillis : (46 : UInt8) :: (zeroPad 3 0 ++ [90]) = ascii ".000Z" := by decide
  simp only [formatRequestedAt, gmtimeR, render, ofEpoch, hmillis, Int.toNat_natCast]
  congr 3
  omega

/-! ## Reading a timestamp -/

private theorem scanf_field {width n : Nat} (hwidth : 0 < width)
    (h : n < 10 ^ width) (format : List Directive) (rest : Bytes) :
    scanf (.int width :: format) (zeroPad width n ++ rest) =
      (n : Int) :: scanf format rest := by
  have hlength := zeroPad_length hwidth h
  have hne : zeroPad width n ≠ [] := by
    intro hnil
    rw [hnil] at hlength
    simp at hlength
    omega
  have hscan := scanInt_append hne (zeroPad_isDigit width n) rest
  rw [hlength, readDecimal_zeroPad] at hscan
  simp [scanf, hscan]

private theorem scanf_char (c : UInt8) (format : List Directive) (rest : Bytes) :
    scanf (.char c :: format) (c :: rest) = scanf format rest := by
  simp [scanf]

theorem scanf_render (date : DateTime) {millis : Nat}
    (hyear : date.year ≤ 9999) (hmillis : millis < 1000) :
    scanf timestampFormat (date.render millis) =
      [(date.year : Int), date.month, date.day, date.hour, date.minute,
        date.second, millis] := by
  have hmonth := date.month_valid
  have hday := date.day_lt
  have hhour := date.hour_valid
  have hminute := date.minute_valid
  have hsecond := date.second_valid
  simp only [timestampFormat, render]
  rw [scanf_field (by decide) (by omega), scanf_char,
    scanf_field (by decide) (by omega), scanf_char,
    scanf_field (by decide) (by omega), scanf_char,
    scanf_field (by decide) (by omega), scanf_char,
    scanf_field (by decide) (by omega), scanf_char,
    scanf_field (by decide) (by omega), scanf_char,
    scanf_field (by decide) (by omega), scanf_char, scanf]

private theorem zeroPad_ne_zero {width n : Nat} {b : UInt8}
    (h : b ∈ zeroPad width n) : b ≠ 0 := by
  rintro rfl
  exact absurd (zeroPad_isDigit width n 0 h) (by decide)

private theorem render_no_nul (date : DateTime) (millis : Nat) :
    (date.render millis).takeWhile (· != 0) = date.render millis := by
  have hbytes : ∀ b ∈ date.render millis, (b != 0) = true := by
    intro b hb
    simp only [render, List.mem_append, List.mem_cons, List.not_mem_nil,
      or_false] at hb
    rcases hb with hb | rfl | hb | rfl | hb | rfl | hb | rfl | hb | rfl | hb | rfl |
      hb | rfl
    all_goals first
      | decide
      | simpa using zeroPad_ne_zero hb
  exact takeWhile_eq_self hbytes

def epochMillis (date : DateTime) (millis : Nat) : Int :=
  1000 * date.epochSecond + millis

theorem parseTimestampMs_render (date : DateTime) {millis : Nat}
    (hyear : date.year ≤ 9999) (hmillis : millis < 1000) :
    parseTimestampMs (date.render millis) =
      UInt64.ofInt (date.epochMillis millis) := by
  have hmonth := date.month_valid
  have hseconds : timegm ⟨(date.year : Int) - 1900, (date.month : Int) - 1,
      date.day, date.hour, date.minute, date.second⟩ = date.epochSecond := by
    simp only [timegm, epochSecond]
    rw [show ((date.month : Int) - 1) / 12 = 0 by omega,
      show (((date.month : Int) - 1) % 12).toNat = date.month - 1 by omega,
      show (date.year : Int) - 1900 + 1900 + 0 = date.year by omega]
  simp only [parseTimestampMs, render_no_nul, scanf_render date hyear hmillis,
    hseconds, epochMillis]
  rw [UInt64.ofInt_add, UInt64.ofInt_mul, UInt64.mul_comm]
  rfl

private theorem daysBeforeMonth_le {leap : Int} (hleap : leap ≤ 1) (month : Nat) :
    daysBeforeMonth leap month ≤ 366 := by
  unfold daysBeforeMonth
  split <;> omega

theorem epochSecond_lt (date : DateTime) (hyear : date.year ≤ 9999) :
    date.epochSecond < 2 ^ 52 := by
  have hmonth := daysBeforeMonth_le (leapDay_bounds date.year).2 (date.month - 1)
  have hday := date.day_lt
  have hhour := date.hour_valid
  have hminute := date.minute_valid
  have hsecond := date.second_valid
  unfold epochSecond dayNumber daysBeforeYear
  omega

/-! ## The second denoted by a text -/

private theorem zeroPad_append_inj {width first second : Nat} {separator : UInt8}
    (hseparator : isDigit separator = false) {rest rest' : Bytes}
    (h : zeroPad width first ++ separator :: rest =
      zeroPad width second ++ separator :: rest') :
    first = second ∧ rest = rest' := by
  have htake := congrArg (List.takeWhile isDigit) h
  rw [List.takeWhile_append_of_pos (zeroPad_isDigit width first),
    List.takeWhile_append_of_pos (zeroPad_isDigit width second)] at htake
  simp only [List.takeWhile_cons, hseparator] at htake
  have heq : first = second := zeroPad_injective width (by simpa using htake)
  subst heq
  simpa using h

theorem epochSecond_eq_of_render_eq {first second : DateTime} {millis : Nat}
    (h : first.render millis = second.render millis) :
    first.epochSecond = second.epochSecond := by
  obtain ⟨hyear, h⟩ := zeroPad_append_inj (by decide) h
  obtain ⟨hmonth, h⟩ := zeroPad_append_inj (by decide) h
  obtain ⟨hday, h⟩ := zeroPad_append_inj (by decide) h
  obtain ⟨hhour, h⟩ := zeroPad_append_inj (by decide) h
  obtain ⟨hminute, h⟩ := zeroPad_append_inj (by decide) h
  obtain ⟨hsecond, -⟩ := zeroPad_append_inj (by decide) h
  simp only [epochSecond, hyear, hmonth, hday, hhour, hminute, hsecond]

end DateTime

structure Instant where
  date : DateTime
  millis : Nat
  year_le : date.year ≤ 9999
  millis_lt : millis < 1000
  after_epoch : 0 ≤ date.epochSecond

namespace Instant

def text (instant : Instant) : Bytes := instant.date.render instant.millis

def ms (instant : Instant) : Nat := (instant.date.epochMillis instant.millis).toNat

theorem ms_lt (instant : Instant) : instant.ms < 2 ^ 62 := by
  have hsecond := instant.date.epochSecond_lt instant.year_le
  have hmillis := instant.millis_lt
  unfold ms DateTime.epochMillis
  omega

theorem parseTimestampMs_text (instant : Instant) :
    (parseTimestampMs instant.text).toNat = instant.ms := by
  have hms : instant.date.epochMillis instant.millis = (instant.ms : Int) := by
    have hepoch := instant.after_epoch
    unfold ms DateTime.epochMillis
    omega
  have hlt := instant.ms_lt
  rw [text, DateTime.parseTimestampMs_render _ instant.year_le instant.millis_lt, hms]
  rw [UInt64.ofInt, UInt64.toNat_ofNat']
  omega

end Instant

/-- The text is the timestamp, on a whole second, of the epoch second `second`. -/
def DenotesSecond (text : Bytes) (second : Nat) : Prop :=
  ∃ date : DateTime, text = date.render 0 ∧ date.epochSecond = second

theorem denotesSecond_formatRequestedAt (now second : Nat) :
    DenotesSecond (formatRequestedAt (gmtimeR now)) second ↔ second = now := by
  rw [DateTime.formatRequestedAt_gmtimeR]
  constructor
  · rintro ⟨date, htext, hsecond⟩
    have heq := DateTime.epochSecond_eq_of_render_eq htext
    rw [DateTime.epochSecond_ofEpoch, hsecond] at heq
    exact_mod_cast heq.symm
  · rintro rfl
    exact ⟨_, rfl, DateTime.epochSecond_ofEpoch _⟩

/-! ## The cache -/

/-- The cache holds the text of its second, except before its first use. -/
def TimestampCache.Valid (cache : TimestampCache) : Prop :=
  cache.lastSec ≠ 0 → cache.requestedAt = formatRequestedAt (gmtimeR cache.lastSec)

theorem TimestampCache.initial_valid : TimestampCache.initial.Valid :=
  fun h => absurd rfl h

theorem TimestampCache.refresh_valid {cache : TimestampCache} (h : cache.Valid)
    (now : Nat) : (cache.refresh now).Valid := by
  unfold refresh
  split_ifs
  · exact fun _ => rfl
  · exact h

theorem TimestampCache.refresh_requestedAt {cache : TimestampCache}
    (h : cache.Valid) {now : Nat} (hnow : 0 < now) :
    (cache.refresh now).requestedAt = formatRequestedAt (gmtimeR now) := by
  unfold refresh
  split_ifs with hne
  · rfl
  · have heq : now = cache.lastSec := not_not.mp hne
    rw [heq] at hnow ⊢
    exact h hnow.ne'

theorem createProcessorPayload_eq_some {cache cache' : TimestampCache} {now : Nat}
    {json payload : Bytes} {ts : UInt64}
    (h : createProcessorPayload cache now json = some (payload, ts, cache')) :
    json ≠ [] ∧ cache' = cache.refresh now ∧ ts = UInt64.ofNat now ∧
      payload = json.dropLast ++ requestedAtKey ++ cache'.requestedAt ++ requestedAtEnd := by
  unfold createProcessorPayload at h
  split_ifs at h with hjson
  simp only [Option.some.injEq, Prod.mk.injEq] at h
  obtain ⟨rfl, rfl, rfl⟩ := h
  exact ⟨hjson, rfl, rfl, rfl⟩

/-! ## Calls of one thread -/

/-- The results of a thread's calls of `create_processor_payload`, in order. -/
def createdPayloads : TimestampCache → List (Nat × Bytes) → Option (List (Bytes × UInt64))
  | _, [] => some []
  | cache, (now, json) :: calls =>
      match createProcessorPayload cache now json with
      | none => none
      | some (payload, ts, cache) =>
          (createdPayloads cache calls).map fun outputs => (payload, ts) :: outputs

/-- The last second of the year 9999. -/
def lastSecond : Nat := 253402300799

theorem DateTime.render_length (date : DateTime) {millis : Nat}
    (hyear : date.year ≤ 9999) (hmillis : millis < 1000) :
    (date.render millis).length = 24 := by
  have hmonth := date.month_valid
  have hday := date.day_lt
  have hhour := date.hour_valid
  have hminute := date.minute_valid
  have hsecond := date.second_valid
  simp only [render, List.length_append, List.length_cons, List.length_nil]
  rw [zeroPad_length (by decide) (by omega), zeroPad_length (by decide) (by omega),
    zeroPad_length (by decide) (by omega), zeroPad_length (by decide) (by omega),
    zeroPad_length (by decide) (by omega), zeroPad_length (by decide) (by omega),
    zeroPad_length (by decide) (by omega)]

theorem DateTime.ofEpoch_year_le {now : Nat} (h : now ≤ lastSecond) :
    (ofEpoch now).year ≤ 9999 := by
  have hday : ((now / 86400 : Nat) : Int) ≤ 2932896 := by
    unfold lastSecond at h
    omega
  have hyear := civilOfDay_year_le hday
  simp only [ofEpoch]
  omega

def Instant.ofEpoch (now : Nat) (h : now ≤ lastSecond) : Instant where
  date := .ofEpoch now
  millis := 0
  year_le := DateTime.ofEpoch_year_le h
  millis_lt := Nat.zero_lt_succ _
  after_epoch := by
    rw [DateTime.epochSecond_ofEpoch]
    exact Int.natCast_nonneg now

theorem formatRequestedAt_round_trip {now : Nat} (h : now ≤ lastSecond) :
    (formatRequestedAt (gmtimeR now)).length = 24 ∧
      (parseTimestampMs (formatRequestedAt (gmtimeR now))).toNat = 1000 * now := by
  rw [DateTime.formatRequestedAt_gmtimeR]
  constructor
  · exact DateTime.render_length _ (DateTime.ofEpoch_year_le h) (by decide)
  · have hparsed := (Instant.ofEpoch now h).parseTimestampMs_text
    have hms : (Instant.ofEpoch now h).ms = 1000 * now := by
      simp only [Instant.ms, Instant.ofEpoch, DateTime.epochMillis,
        DateTime.epochSecond_ofEpoch]
      omega
    rw [hms] at hparsed
    exact hparsed

/-- What a call at clock reading `now` on the text `json` gives, whatever came before. -/
def StampedAt (call : Nat × Bytes) (output : Bytes × UInt64) : Prop :=
  ∃ requestedAt : Bytes, requestedAt = formatRequestedAt (gmtimeR call.1) ∧
    output.1 = call.2.dropLast ++ requestedAtKey ++ requestedAt ++ requestedAtEnd ∧
    requestedAt.length = 24 ∧ (parseTimestampMs requestedAt).toNat = 1000 * call.1 ∧
    output.2.toNat = call.1

theorem createProcessorPayload_stampedAt {cache : TimestampCache} (hcache : cache.Valid)
    {now : Nat} {json : Bytes} (hpos : 0 < now) (hlast : now ≤ lastSecond)
    (hjson : json ≠ []) :
    ∃ payload ts, createProcessorPayload cache now json =
        some (payload, ts, cache.refresh now) ∧ StampedAt (now, json) (payload, ts) := by
  obtain ⟨hlength, hparsed⟩ := formatRequestedAt_round_trip hlast
  refine ⟨_, _, if_neg hjson, _, rfl, ?_, hlength, hparsed, ?_⟩
  · rw [TimestampCache.refresh_requestedAt hcache hpos]
  · rw [UInt64.toNat_ofNat']
    unfold lastSecond at hlast
    dsimp only
    omega

theorem createdPayloads_isSome_iff (cache : TimestampCache) (calls : List (Nat × Bytes)) :
    (createdPayloads cache calls).isSome = true ↔ ∀ call ∈ calls, call.2 ≠ [] := by
  induction calls generalizing cache with
  | nil => simp [createdPayloads]
  | cons call calls ih =>
      by_cases hjson : call.2 = []
      · simp [createdPayloads, createProcessorPayload, hjson]
      · simp [createdPayloads, createProcessorPayload, hjson, ih]

/--
Through any sequence of clock readings, repeated, advancing or stepping back, each
call on a thread writes the 24 characters of its own reading, which parse back to
it, and returns it as the epoch second.  The calls have a result unless one of them
removes the last byte of an empty text.
-/
theorem stamps_round_trip {calls : List (Nat × Bytes)}
    (hcalls : ∀ call ∈ calls, 1 ≤ call.1 ∧ call.1 ≤ 253402300799) :
    ((createdPayloads .initial calls).isSome = true ↔ ∀ call ∈ calls, call.2 ≠ []) ∧
    ∀ outputs, createdPayloads .initial calls = some outputs →
      List.Forall₂ StampedAt calls outputs := by
  refine ⟨createdPayloads_isSome_iff _ calls, ?_⟩
  have hthread : ∀ cache : TimestampCache, cache.Valid →
      ∀ outputs, createdPayloads cache calls = some outputs →
        List.Forall₂ StampedAt calls outputs := by
    induction calls with
    | nil =>
        rintro cache - outputs houtputs
        cases houtputs
        exact .nil
    | cons call calls ih =>
        intro cache hcache outputs houtputs
        obtain ⟨hpos, hlast⟩ := hcalls call (by simp)
        have hjson : call.2 ≠ [] := by
          apply (createdPayloads_isSome_iff cache (call :: calls)).mp _ call (by simp)
          rw [houtputs]
          rfl
        obtain ⟨payload, ts, hcreated, hstamped⟩ :=
          createProcessorPayload_stampedAt hcache hpos hlast hjson
        simp only [createdPayloads, hcreated] at houtputs
        obtain ⟨rest, hrest, rfl⟩ := Option.map_eq_some_iff.mp houtputs
        exact .cons hstamped (ih (fun other hother => hcalls other (by simp [hother])) _
          (TimestampCache.refresh_valid hcache call.1) rest hrest)
  exact hthread _ TimestampCache.initial_valid

def steppingBack : List (Nat × Bytes) :=
  [(1751328001, ascii "\x7b\x7d"), (1751328001, ascii "\x7b\x7d"),
    (1751328000, ascii "\x7b\x7d")]

theorem stamps_round_trip_stepping_back :
    ∃ outputs, createdPayloads .initial steppingBack = some outputs ∧
      List.Forall₂ StampedAt steppingBack outputs := by
  obtain ⟨hsome, hstamped⟩ := @stamps_round_trip steppingBack (by decide)
  obtain ⟨outputs, houtputs⟩ := Option.isSome_iff_exists.mp (hsome.mpr (by decide))
  exact ⟨outputs, houtputs, hstamped outputs houtputs⟩

end RinhaBackend
