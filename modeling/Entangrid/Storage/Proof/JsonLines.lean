import Mathlib.Data.List.Infix
import Entangrid.Storage.JsonLines

/-!
# Appends, crashes and reloads

A file of JSON lines is the lines of the completed appends followed by what crashes left behind since
the last of them. `LogOp.Safe` says when that leftover does no harm: an append that completes must
find none, and after a crash it must read as an unfinished value.

* `log_survives_iff`: exactly then every reload returns the values whose append completed.
-/

namespace Entangrid

/-! ## Lines -/

/-- No line ending in a text. -/
def Unbroken (text : List Char) : Prop := ∀ c ∈ text, c ≠ '\n' ∧ c ≠ '\r'

theorem Unbroken.append {xs ys : List Char} (hx : Unbroken xs) (hy : Unbroken ys) :
    Unbroken (xs ++ ys) := by
  intro c hc
  rcases List.mem_append.1 hc with hc | hc
  · exact hx c hc
  · exact hy c hc

theorem stripCarriageReturn_of_unbroken {line : List Char} (h : Unbroken line) :
    stripCarriageReturn line = line := by
  unfold stripCarriageReturn
  rw [if_neg]
  intro hlast
  exact (h '\r' (List.mem_of_getLast? hlast)).2 rfl

theorem linesFrom_unbroken {current text : List Char} (h : Unbroken text) :
    linesFrom current text = if (current ++ text).isEmpty then [] else [current ++ text] := by
  induction text generalizing current with
  | nil => simp [linesFrom]
  | cons c text ih =>
    rw [linesFrom, if_neg (h c (by simp)).1, ih fun d hd => h d (by simp [hd])]
    simp

theorem linesFrom_line {current text rest : List Char} (h : Unbroken text) :
    linesFrom current (text ++ '\n' :: rest) =
      stripCarriageReturn (current ++ text) :: linesFrom [] rest := by
  induction text generalizing current with
  | nil => simp [linesFrom]
  | cons c text ih =>
    rw [List.cons_append, linesFrom, if_neg (h c (by simp)).1, ih fun d hd => h d (by simp [hd])]
    simp

namespace JsonCodec

variable {α : Type} {J : JsonCodec α}

/-- What `serde_json` does with the values of a log, which are written as objects. -/
structure Lawful (J : JsonCodec α) : Prop where
  unbroken : ∀ value, Unbroken (J.encode value)
  start : ∀ value, ∃ c rest, J.encode value = c :: rest ∧ isWhitespace c = false
  decode_encode : ∀ value, J.decode (J.encode value) = .ok value
  /-- A proper prefix of a value ends too early. -/
  truncated : ∀ value k, k < (J.encode value).length →
    J.decode ((J.encode value).take k) = .error .eof
  /-- A value that follows an unfinished one is not read as itself. -/
  glued : ∀ text value, isBlank text = false → J.decode text = .error .eof →
    J.decode (text ++ J.encode value) ≠ .ok value

/-! ## Loading -/

theorem appendJsonLine_overwrite (values : List α) (value : α) :
    J.appendJsonLine (J.overwriteJsonLines values) value = J.overwriteJsonLines (values ++ [value]) := by
  simp [overwriteJsonLines]

theorem overwriteJsonLines_cons (value : α) (values : List α) :
    J.overwriteJsonLines (value :: values) =
      J.encode value ++ '\n' :: J.overwriteJsonLines values := by
  have h : ∀ start, values.foldl J.appendJsonLine start = start ++ J.overwriteJsonLines values := by
    induction values with
    | nil => simp [overwriteJsonLines]
    | cons v values ih =>
      intro start
      have hcons : J.overwriteJsonLines (v :: values) =
          J.appendJsonLine [] v ++ J.overwriteJsonLines values := ih (J.appendJsonLine [] v)
      rw [List.foldl_cons, ih, hcons]
      simp [appendJsonLine]
  rw [overwriteJsonLines, List.foldl_cons, h]
  simp [appendJsonLine]

section
variable (hJ : J.Lawful)
include hJ

theorem Lawful.not_blank (value : α) : isBlank (J.encode value) = false := by
  obtain ⟨c, rest, hencode, hc⟩ := hJ.start value
  simp [isBlank, hencode, hc]

/-- Complete lines load one by one. -/
theorem Lawful.load_lines (values : List α) (rest : List Char) :
    J.loadJsonLines (J.overwriteJsonLines values ++ rest) =
      (J.loadJsonLines rest).map (values ++ ·) := by
  induction values with
  | nil =>
    cases h : J.loadJsonLines rest <;> simp [overwriteJsonLines, h, Except.map]
  | cons value values ih =>
    have hlines : linesFrom [] (J.overwriteJsonLines (value :: values) ++ rest) =
        J.encode value :: linesFrom [] (J.overwriteJsonLines values ++ rest) := by
      rw [overwriteJsonLines_cons, List.append_assoc, List.cons_append,
        linesFrom_line (hJ.unbroken value), List.nil_append,
        stripCarriageReturn_of_unbroken (hJ.unbroken value)]
    rw [loadJsonLines, hlines, List.filter_cons_of_pos (by simp [hJ.not_blank value]), loadLines,
      hJ.decode_encode]
    change (J.loadJsonLines (J.overwriteJsonLines values ++ rest) >>= fun vs => .ok (value :: vs)) = _
    rw [ih]
    cases J.loadJsonLines rest <;> rfl

/-- The last line, whether its newline was written or not. -/
theorem Lawful.load_last (values : List α) {text ending : List Char} (htext : Unbroken text)
    (hblank : isBlank text = false) (hending : ending = [] ∨ ending = ['\n']) :
    J.loadJsonLines (J.overwriteJsonLines values ++ (text ++ ending)) =
      match J.decode text with
      | .ok value => .ok (values ++ [value])
      | .error category => if category = .eof then .ok values else .error category := by
  have hne : (text.isEmpty) = false := by
    cases text with
    | nil => simp [isBlank] at hblank
    | cons => rfl
  have hlines : linesFrom [] (text ++ ending) = [text] := by
    rcases hending with rfl | rfl
    · rw [List.append_nil, linesFrom_unbroken htext]
      simp [hne]
    · rw [linesFrom_line htext, List.nil_append, stripCarriageReturn_of_unbroken htext]
      rfl
  rw [hJ.load_lines, loadJsonLines, hlines, List.filter_cons_of_pos (by simp [hblank]),
    List.filter_nil, loadLines]
  cases J.decode text with
  | ok value => rfl
  | error category =>
    by_cases heof : category = .eof
    · simp [heof, Except.map]
    · simp [heof, Except.map]

end

end JsonCodec

/-! ## Crashes -/

namespace LogOp

variable {α : Type} {J : JsonCodec α}

/-- What crashes leave behind does no harm. `left` is what they left since the last completed
append. -/
def Safe (J : JsonCodec α) : List Char → List (LogOp α) → Prop
  | _, [] => True
  | left, append _ :: rest => left = [] ∧ Safe J [] rest
  | left, crash value written :: rest =>
    (left ++ (J.encode value).take written = [] ∨
      J.decode (left ++ (J.encode value).take written) = .error .eof) ∧
    Safe J (left ++ (J.encode value).take written) rest

/-- The form of a leftover: one line, nothing or the start of a value. -/
structure Leftover (left : List Char) : Prop where
  unbroken : Unbroken left
  blank : left = [] ∨ isBlank left = false

theorem Leftover.crash (hJ : J.Lawful) {left : List Char} (h : Leftover left) (value : α)
    (written : Nat) : Leftover (left ++ (J.encode value).take written) where
  unbroken := h.unbroken.append fun c hc => hJ.unbroken value c (List.mem_of_mem_take hc)
  blank := by
    rcases h.blank with rfl | hblank
    · obtain ⟨c, rest, hencode, hc⟩ := hJ.start value
      cases written with
      | zero => exact .inl (by simp)
      | succ k => exact .inr (by simp [isBlank, hencode, hc])
    · refine .inr ?_
      simp only [isBlank, List.all_append] at hblank ⊢
      simp [hblank]

section
variable (hJ : J.Lawful)
include hJ

theorem load_leftover (values : List α) {left : List Char} (h : Leftover left)
    (heof : left = [] ∨ J.decode left = .error .eof) :
    J.loadJsonLines (J.overwriteJsonLines values ++ left) = .ok values := by
  rcases h.blank with rfl | hblank
  · rw [hJ.load_lines]
    simp [JsonCodec.loadJsonLines, linesFrom, JsonCodec.loadLines, Except.map]
  · have heof' : J.decode left = .error .eof := by
      rcases heof with rfl | heof
      · simp [isBlank] at hblank
      · exact heof
    have := hJ.load_last values h.unbroken hblank (.inl rfl)
    rw [List.append_nil, heof'] at this
    simpa using this

/-- The reloads from a file that ends in a harmless leftover. -/
theorem survives_iff (ops : List (LogOp α)) (values : List α) {left : List Char}
    (h : Leftover left) (heof : left = [] ∨ J.decode left = .error .eof) :
    (∀ done, done <+: ops → J.loadJsonLines (done.foldl (write J) (J.overwriteJsonLines values ++ left)) =
      .ok (values ++ completed done)) ↔ Safe J left ops := by
  induction ops generalizing values left with
  | nil =>
    refine ⟨fun _ => trivial, fun _ done hdone => ?_⟩
    obtain rfl := List.prefix_nil.1 hdone
    simpa [completed] using load_leftover hJ values h heof
  | cons op ops ih =>
    have hbase := load_leftover hJ values h heof
    cases op with
    | append value =>
      rw [Safe]
      constructor
      · intro hloads
        -- the append has to start a line of its own, or the value is lost
        have hleft : left = [] := by
          by_contra hleft
          have hblank := h.blank.resolve_left hleft
          have hload := hloads [append value] (by simp)
          have hlast := hJ.load_last values (h.unbroken.append (hJ.unbroken value))
            (by simp only [isBlank, List.all_append] at hblank ⊢; simp [hblank]) (.inr rfl)
          simp only [List.foldl_cons, List.foldl_nil, write, JsonCodec.appendJsonLine, completed,
            List.filterMap_cons, List.filterMap_nil] at hload
          rw [← List.append_assoc, ← List.append_assoc, hload] at hlast
          have hglued := hJ.glued left value hblank (heof.resolve_left hleft)
          cases hd : J.decode (left ++ J.encode value) with
          | ok value' =>
            rw [hd] at hlast
            obtain rfl : value = value' := by simpa using hlast
            exact hglued hd
          | error category =>
            rw [hd] at hlast
            dsimp only at hlast
            split_ifs at hlast
            · simp at hlast
        subst hleft
        refine ⟨rfl, (ih (values ++ [value]) ⟨by simp [Unbroken], .inl rfl⟩ (.inl rfl)).1 ?_⟩
        intro done hdone
        have := hloads (append value :: done) (by simpa using hdone)
        simpa [write, completed, JsonCodec.appendJsonLine_overwrite] using this
      · rintro ⟨rfl, hsafe⟩ done hdone
        rcases List.prefix_cons_iff.1 hdone with rfl | ⟨done, rfl, hrest⟩
        · simpa [completed] using hbase
        · have := (ih (values ++ [value]) ⟨by simp [Unbroken], .inl rfl⟩ (.inl rfl)).2 hsafe done hrest
          simpa [write, completed, JsonCodec.appendJsonLine_overwrite] using this
    | crash value written =>
      have h' := h.crash hJ value written
      rw [Safe]
      constructor
      · intro hloads
        have hload := hloads [crash value written] (by simp)
        have heof' : left ++ (J.encode value).take written = [] ∨
            J.decode (left ++ (J.encode value).take written) = .error .eof := by
          rcases h'.blank with hempty | hblank
          · exact .inl hempty
          · have hlast := hJ.load_last values h'.unbroken hblank (.inl rfl)
            simp only [List.foldl_cons, List.foldl_nil, write, completed, List.filterMap_cons,
              List.filterMap_nil, List.append_nil, List.append_assoc] at hload hlast
            rw [hload] at hlast
            refine .inr ?_
            cases hd : J.decode (left ++ (J.encode value).take written) with
            | ok value' =>
              rw [hd] at hlast
              simp at hlast
            | error category =>
              rw [hd] at hlast
              dsimp only at hlast
              split_ifs at hlast with hcategory
              rw [hcategory]
        refine ⟨heof', (ih values h' heof').1 fun done hdone => ?_⟩
        have := hloads (crash value written :: done) (by simpa using hdone)
        simpa [write, completed] using this
      · rintro ⟨heof', hsafe⟩ done hdone
        rcases List.prefix_cons_iff.1 hdone with rfl | ⟨done, rfl, hrest⟩
        · simpa [completed] using hbase
        · simpa [write, completed] using (ih values h' heof').2 hsafe done hrest

end

/-- **Every reload of a log returns the values whose append completed exactly if its crashes are
safe**: no append completes on a leftover, and every leftover reads as an unfinished value. -/
theorem log_survives_iff {α : Type} (J : JsonCodec α) (hJ : J.Lawful) (ops : List (LogOp α)) :
    (∀ done, done <+: ops → J.loadJsonLines (file J done) = .ok (completed done)) ↔ Safe J [] ops := by
  simpa [file, JsonCodec.overwriteJsonLines] using
    survives_iff hJ ops [] ⟨by simp [Unbroken], .inl rfl⟩ (.inl rfl)

end LogOp

/-! ## JSON strings -/

/-- The rest of a JSON string of `x`s of which `n` were read. -/
def decodeXs (n : Nat) : List Char → Except JsonCategory Nat
  | [] => .error .eof
  | c :: rest =>
    if c = 'x' then decodeXs (n + 1) rest
    else if c = '"' ∧ rest = [] then .ok n
    else .error .syntaxError

/-- The JSON strings of `n` letters `x`. -/
def xStrings : JsonCodec Nat where
  encode n := '"' :: (List.replicate n 'x' ++ ['"'])
  decode
    | [] => .error .eof
    | c :: rest => if c = '"' then decodeXs 0 rest else .error .syntaxError

theorem decodeXs_replicate (n k : Nat) (rest : List Char) :
    decodeXs n (List.replicate k 'x' ++ rest) = decodeXs (n + k) rest := by
  induction k generalizing n with
  | zero => rfl
  | succ k ih =>
    rw [List.replicate_succ, List.cons_append, decodeXs, if_pos rfl, ih]
    congr 1
    omega

/-- A string that ends too early consists of `x`s. -/
theorem eq_replicate_of_decodeXs_eof {n : Nat} {text : List Char}
    (h : decodeXs n text = .error .eof) : ∃ k, text = List.replicate k 'x' := by
  induction text generalizing n with
  | nil => exact ⟨0, rfl⟩
  | cons c text ih =>
    rw [decodeXs] at h
    split_ifs at h with hc
    · obtain ⟨k, rfl⟩ := ih h
      exact ⟨k + 1, by rw [hc, List.replicate_succ]⟩
    · simp at h

theorem xStrings_lawful : xStrings.Lawful where
  unbroken n c hc := by
    simp only [xStrings, List.mem_cons, List.mem_append, List.mem_replicate, List.not_mem_nil,
      or_false] at hc
    rcases hc with rfl | ⟨-, rfl⟩ | rfl <;> decide
  start n := ⟨'"', _, rfl, by decide⟩
  decode_encode n := by
    simp [xStrings, decodeXs_replicate, decodeXs]
  truncated n k hk := by
    cases k with
    | zero => rfl
    | succ k =>
      have hk : k ≤ n := Nat.lt_succ_iff.1 (by simpa [xStrings] using hk)
      have htake : (List.replicate n 'x' ++ ['"']).take k = List.replicate k 'x' ++ [] := by
        rw [List.take_append_of_le_length (by simpa using hk), List.take_replicate,
          Nat.min_eq_left hk, List.append_nil]
      simp only [xStrings, List.take_succ_cons, if_true]
      rw [htake, decodeXs_replicate, decodeXs]
  glued text n hblank heof := by
    cases text with
    | nil => simp [isBlank] at hblank
    | cons c text =>
      simp only [xStrings] at heof ⊢
      split_ifs at heof with hc
      · obtain ⟨k, rfl⟩ := eq_replicate_of_decodeXs_eof heof
        dsimp only [List.cons_append]
        rw [if_pos hc, decodeXs_replicate]
        simp [decodeXs]
      · simp at heof

namespace LogOp

/-- A crash in the middle of a value, and no append after it. -/
theorem truncated_tail_survives : Safe xStrings [] [append 1, crash 2 2] ∧
    xStrings.loadJsonLines (file xStrings [append 1, crash 2 2]) = .ok [1] := by
  have hsafe : Safe xStrings [] [append 1, crash 2 2] := ⟨rfl, .inr rfl, trivial⟩
  exact ⟨hsafe, (log_survives_iff xStrings xStrings_lawful _).2 hsafe _ (List.prefix_refl _)⟩

/-- The append after a crash goes on the unfinished line, and the log does not load any more. -/
theorem append_after_crash_breaks_log : xStrings.Lawful ∧
    xStrings.loadJsonLines (file xStrings [append 1, crash 2 2]) = .ok [1] ∧
    xStrings.loadJsonLines (file xStrings [append 1, crash 2 2, append 3]) = .error .syntaxError := by
  exact ⟨xStrings_lawful, by decide +kernel, by decide +kernel⟩

end LogOp

end Entangrid
