import Guardedness.Proofs.CommandLine.Options
import Guardedness.Proofs.Layout

/-!
# Terms that are given and terms that are entered

The tool takes its term from the arguments or reads it from a line. For the outcome it makes no
difference which.

**Lines** (`firstLine_of_text`). The byte of a line feed is in no other character, so that a text
without a line feed is read as a whole, and behind that line feed nothing is read.

**Outcomes** (`shown_given`, `shown_entered`). A check looks up its settings, then finds its text,
and then tells the verdict or the error. The line feed that an entered text has at its end is a
blank, and blanks at the end of a text move no place that a message tells.
-/

namespace Guardedness

namespace CommandLine

variable {lib : Libraries} {files : String → Entry} {schedule schedule' : Schedule}
  {args args' : List String} {input input' rest bs : List UInt8} {o : Options} {text : String}

/-! ## Lines -/

def bytes (s : String) : List UInt8 := s.toUTF8.data.toList

theorem bytes_eq (s : String) : bytes s = s.toList.flatMap String.utf8EncodeChar := by
  rw [bytes, String.toUTF8_eq_toByteArray, ← String.utf8Encode_toList, List.utf8Encode,
    List.data_toByteArray]

theorem toByteArray_bytes (s : String) : (bytes s).toByteArray = s.toUTF8 := by
  apply ByteArray.ext
  rw [List.data_toByteArray, bytes]

theorem fromUTF8?_bytes (s : String) : String.fromUTF8? (bytes s).toByteArray = some s := by
  rw [toByteArray_bytes, String.toUTF8_eq_toByteArray, String.fromUTF8?, dif_pos s.isValidUTF8]
  rfl

theorem bytes_append (s t : String) : bytes (s ++ t) = bytes s ++ bytes t := by
  simp only [bytes_eq, String.toList_append, List.flatMap_append]

theorem eq_lineFeed_of_mem {c : Char} (h : 10 ∈ String.utf8EncodeChar c) : c = '\n' := by
  have toNat {n : Nat} (hn : 10 = UInt8.ofNat n) : n % 256 = 10 := by
    have := congrArg UInt8.toNat hn
    rw [UInt8.toNat_ofNat'] at this
    exact this.symm
  rw [String.utf8EncodeChar] at h
  split at h
  · have := toNat (List.mem_singleton.mp h)
    apply Char.ext
    apply UInt32.toNat.inj
    show c.val.toNat = 10
    omega
  -- The bytes of a longer character are all at least 128.
  · split at h
    · simp only [List.mem_cons, List.not_mem_nil, or_false] at h
      rcases h with h | h <;> have := toNat h <;> omega
    · split at h
      · simp only [List.mem_cons, List.not_mem_nil, or_false] at h
        rcases h with h | h | h <;> have := toNat h <;> omega
      · simp only [List.mem_cons, List.not_mem_nil, or_false] at h
        rcases h with h | h | h | h <;> have := toNat h <;> omega

theorem not_mem_bytes (h : '\n' ∉ text.toList) : 10 ∉ bytes text := by
  rw [bytes_eq, List.mem_flatMap]
  rintro ⟨c, hc, hmem⟩
  exact h (eq_lineFeed_of_mem hmem ▸ hc)

theorem firstLine_of_not_mem (h : 10 ∉ bs) : firstLine bs = bs := by
  induction bs with
  | nil => rfl
  | cons b bs ih =>
    rw [List.mem_cons, not_or] at h
    rw [firstLine, if_neg (Ne.symm h.1), ih h.2]

theorem firstLine_append (h : 10 ∉ bs) : firstLine (bs ++ 10 :: rest) = bs ++ [10] := by
  induction bs with
  | nil => rfl
  | cons b bs ih =>
    rw [List.mem_cons, not_or] at h
    rw [List.cons_append, firstLine, if_neg (Ne.symm h.1), ih h.2, List.cons_append]

/-- A line has been read once its line feed has: what is behind it is not in the line. -/
theorem firstLine_of_text (h : '\n' ∉ text.toList) :
    firstLine (bytes text ++ 10 :: rest) = bytes (text ++ "\n") := by
  rw [firstLine_append (not_mem_bytes h), bytes_append]
  rfl

/-! ## Outcomes -/

/-- The settings that a check finds. -/
def settingsIn (L : Decoder) (files : String → Entry) (o : Options) : Except Error Settings :=
  match files (o.settingsFile.getD defaultSettingsFile) with
  | .missing => .ok {}
  | entry => Settings.ofEntry L entry

/-- The text of the line that is entered. -/
def entered (input : List UInt8) : Except Error String :=
  match String.fromUTF8? (firstLine input).toByteArray with
  | some line => .ok line
  | none => .error (.system .invalidText)

/-- The text is what stands on the first line. -/
def Enters (text : String) (input : List UInt8) : Prop :=
  input = bytes text ∨ ∃ rest, input = bytes text ++ 10 :: rest

/-- What is seen of a run from outside: the exit code and what was written to the two outputs. -/
def shown (r : UInt32 × Transcript) : UInt32 × String × String := (r.1, r.2.output, r.2.errors)

/-- What is seen of a check that comes to an outcome, if it has written `before` until then. -/
def report (before : String) : Except Error Bool → UInt32 × String × String
  | .ok guarded => (0, before ++ verdictLine guarded, "")
  | .error e => (1, before, errorLine e ++ "\n")

theorem run_settings (o : Options) (t : Transcript) :
    (settings lib.decoder (.ofFiles files) (o.settingsFile.getD defaultSettingsFile)).run t =
      (settingsIn lib.decoder files o, t) := by
  show (match files (o.settingsFile.getD defaultSettingsFile) with
    | .missing => pure (.ok {})
    | entry => pure (Settings.ofEntry lib.decoder entry) :
      StateM Transcript (Except Error Settings)).run t = _
  unfold settingsIn
  split <;> rfl

theorem run_source (input : List UInt8) :
    (source (.ofFiles files) none).run ⟨input, "", ""⟩ =
      (entered input, ⟨input.drop (firstLine input).length, prompt, ""⟩) := by
  show (match String.fromUTF8? (firstLine input).toByteArray with
    | some line => pure (.ok line)
    | none => pure (.error (.system .invalidText)) : StateM Transcript (Except Error String)).run
      ⟨input.drop (firstLine input).length, prompt, ""⟩ = _
  unfold entered
  split <;> rfl

theorem shown_of_judge {outcome : Except Error Bool} {before : String} (left : List UInt8)
    (hargs : lib.request args = .check o)
    (h : (judge lib (.ofFiles files) schedule o).run ⟨input, "", ""⟩ =
      (outcome, ⟨left, before, ""⟩)) :
    shown (transcribe lib files schedule args input) = report before outcome := by
  unfold transcribe run
  rw [hargs]
  dsimp only
  rw [StateT.run_bind, h]
  cases outcome with
  | ok guarded => rfl
  | error e =>
    show (1, before, "" ++ (errorLine e ++ "\n")) = _
    rw [String.empty_append]
    rfl

theorem shown_without_settings {e : Error} (hargs : lib.request args = .check o)
    (h : settingsIn lib.decoder files o = .error e) :
    shown (transcribe lib files schedule args input) = report "" (.error e) := by
  refine shown_of_judge input hargs ?_
  rw [judge, StateT.run_bind, run_settings, h]
  rfl

/-- A term that is given is checked as it is, and no input is read. -/
theorem shown_given {settings : Settings} (hargs : lib.request args = .check o)
    (h : settingsIn lib.decoder files o = .ok settings) (hprocess : o.process = some text) :
    shown (transcribe lib files schedule args input) = report "" (verdict settings schedule text) := by
  refine shown_of_judge input hargs ?_
  rw [judge, StateT.run_bind, run_settings, h, hprocess]
  rfl

/-- Otherwise the user is asked for it, and the first line of the input is checked. -/
theorem shown_entered {settings : Settings} (hargs : lib.request args = .check o)
    (h : settingsIn lib.decoder files o = .ok settings) (hprocess : o.process = none) :
    shown (transcribe lib files schedule args input) =
      report prompt (entered input >>= verdict settings schedule) := by
  refine shown_of_judge (input.drop (firstLine input).length) hargs ?_
  rw [judge, StateT.run_bind, run_settings, h, hprocess]
  show (source _ none >>= _ : StateM Transcript _).run _ = _
  rw [StateT.run_bind, run_source]
  cases entered input <;> rfl

theorem verdict_schedule (settings : Settings) (schedule schedule' : Schedule) :
    verdict settings schedule = verdict settings schedule' := by
  funext text
  rw [verdict_eq, verdict_eq]

/-- Nothing behind the first line of the input is looked at. -/
theorem shown_of_firstLine (lib : Libraries) (files : String → Entry)
    (schedule schedule' : Schedule) (args : List String) (h : firstLine input = firstLine input') :
    shown (transcribe lib files schedule args input) =
      shown (transcribe lib files schedule' args input') := by
  cases hargs : lib.request args with
  | version | help | refused =>
    unfold transcribe run
    rw [hargs]
    rfl
  | check o =>
    cases hs : settingsIn lib.decoder files o with
    | error e => rw [shown_without_settings hargs hs, shown_without_settings hargs hs]
    | ok settings =>
      cases hprocess : o.process with
      | some text =>
        rw [shown_given hargs hs hprocess, shown_given hargs hs hprocess,
          verdict_schedule settings schedule schedule']
      | none =>
        rw [shown_entered hargs hs hprocess, shown_entered hargs hs hprocess, entered, entered, h,
          verdict_schedule settings schedule schedule']

/-- The line feed behind a text makes no difference to the verdict. -/
theorem verdict_lineFeed (settings : Settings) (schedule schedule' : Schedule) (text : String) :
    verdict settings schedule (text ++ "\n") = verdict settings schedule' text := by
  have blank : ∀ c ∈ "\n".toList, isBlank c = true := by simp [isBlank]
  obtain ⟨whole, start⟩ := read_append_blanks text blank
  rw [verdict_eq, verdict_eq, SyntaxTree.ofTextUnder, SyntaxTree.ofTextUnder, whole, start]

/-- A text that is entered gets the verdict that it gets if it is given. -/
theorem entered_verdict (settings : Settings) (schedule schedule' : Schedule)
    (htext : '\n' ∉ text.toList) (h : Enters text input) :
    (entered input >>= verdict settings schedule) = verdict settings schedule' text := by
  rcases h with rfl | ⟨rest, rfl⟩
  · rw [entered, firstLine_of_not_mem (not_mem_bytes htext), fromUTF8?_bytes,
      verdict_schedule settings schedule schedule']
    rfl
  · rw [entered, firstLine_of_text htext, fromUTF8?_bytes]
    exact verdict_lineFeed settings schedule schedule' text

/-- A run and one that may prompt come to the same outcome. -/
def SameOutcome (prompts : Bool) (r r' : UInt32 × Transcript) : Prop :=
  ∃ outcome, shown r = report "" outcome ∧
    shown r' = report (if prompts then prompt else "") outcome

theorem sameOutcome (hargs : lib.request args = .check { o with process := some text })
    (hargs' : lib.request args' = .check { o with process := none }) (htext : '\n' ∉ text.toList)
    (hinput : Enters text input') :
    SameOutcome (settingsIn lib.decoder files o).isOk (transcribe lib files schedule args input)
      (transcribe lib files schedule' args' input') := by
  cases hs : settingsIn lib.decoder files o with
  | error e => exact ⟨_, shown_without_settings hargs hs, shown_without_settings hargs' hs⟩
  | ok settings =>
    refine ⟨_, shown_given hargs hs rfl, ?_⟩
    rw [shown_entered hargs' hs rfl, entered_verdict settings schedule' schedule htext hinput]
    rfl

/-- **A term is given by the arguments or entered on a line, and the outcome is the same: the exit
code, the message, and the verdict. Only the prompt is written in addition, unless the settings
cannot be read. Any text without a line feed can be given, behind arguments that ask for a check
and give no term; and whatever comes behind the first line of the input changes nothing.** -/
theorem given_or_entered :
    (∀ (lib : Libraries) files schedule schedule' args args' o text input input',
      lib.request args = .check { o with process := some text } →
      lib.request args' = .check { o with process := none } →
      '\n' ∉ text.toList → Enters text input' →
      SameOutcome (settingsIn lib.decoder files o).isOk (transcribe lib files schedule args input)
        (transcribe lib files schedule' args' input')) ∧
    (∀ lib : Libraries, TakesTerms lib.request →
      ∀ files schedule schedule' args form o text input input', lib.request args = .check o →
      o.process = none → args.getLast? ≠ some "--" → Gives text form →
      '\n' ∉ text.toList → Enters text input' →
      SameOutcome (settingsIn lib.decoder files o).isOk
        (transcribe lib files schedule (args ++ form) input)
        (transcribe lib files schedule' args input')) ∧
    TakesTerms libraries.request ∧
    ∀ (lib : Libraries) files schedule schedule' args input input',
      firstLine input = firstLine input' →
      shown (transcribe lib files schedule args input) =
        shown (transcribe lib files schedule' args input') := by
  refine ⟨?_, ?_, request_takesTerms, ?_⟩
  · intro lib files schedule schedule' args args' o text input input'
    exact sameOutcome
  · intro lib takes files schedule schedule' args form o text input input' hargs hprocess hend hform
    have hgiven := takes.append args o text form hargs hprocess hend hform
    have hentered : lib.request args = .check { o with process := none } := by
      rw [hargs, ← hprocess]
    exact sameOutcome hgiven hentered
  · exact fun lib files schedule schedule' args _ _ =>
      shown_of_firstLine lib files schedule schedule' args

/-- Under settings that ask for the end of the text, `a)` is refused at the same place whether it is
given or entered, also in front of bytes that are no text. -/
theorem given_or_entered_of_error :
    request (["-v"] ++ ["-p", "a)"]) = .check { process := some "a)", verbose := true } ∧
      shown (transcribe libraries (fun _ => .file "[[true]]") default ["-v"]
          (bytes "a)" ++ 10 :: [0xff])) =
        report prompt (.error (.parse (.trailing ⟨.parenClose, ")", ⟨1, 2, 1, 2⟩⟩))) := by
  obtain ⟨-, same, takes, -⟩ := given_or_entered
  have hargs := takes.append ["-v"] { verbose := true } "a)" ["-p", "a)"] rfl rfl (by decide)
    (.short rfl)
  obtain ⟨outcome, hgiven, hentered⟩ := same libraries takes (fun _ => .file "[[true]]") default
    default ["-v"] _ { verbose := true } "a)" [] _ rfl rfl (by decide) (.short rfl) (by decide)
    (.inr ⟨[0xff], rfl⟩)
  have hsettings (process : Option String) : settingsIn libraries.decoder
      (fun _ => .file "[[true]]") { process := process, verbose := true } = .ok ⟨⟨true⟩, {}⟩ := by
    cbv
  have hread : SyntaxTree.ofText "a)" = .error (.trailing ⟨.parenClose, ")", ⟨1, 2, 1, 2⟩⟩) := by
    cbv
  rw [shown_given hargs (hsettings _) rfl, verdict_eq, SyntaxTree.ofTextUnder, if_pos rfl, hread]
    at hgiven
  refine ⟨hargs, ?_⟩
  rw [hentered, hsettings]
  cases outcome with
  | ok guarded => cases congrArg Prod.fst hgiven
  | error e =>
    have hmessage : errorLine e ++ "\n" = _ := (congrArg (·.2.2) hgiven).symm
    show (1, prompt, errorLine e ++ "\n") = _
    rw [hmessage]
    rfl

end CommandLine

end Guardedness
