import AdblockCompiler.Compilers

namespace AdblockCompiler.Cli
open JsText Config Pipeline Header Compilers

structure Arguments where
  maxRules : Option Int := none
  stdout : Bool := false

-- slice(0,maxRules): a negative number counts from the end.
def sliceTo (maxRules : Int) (rules : List Text) : List Text :=
  if 0 ≤ maxRules then rules.take maxRules.toNat else rules.take (rules.length-maxRules.natAbs)

def limited (args : Arguments) (rules : List Text) : List Text :=
  match args.maxRules with
  | none => rules
  | some maxRules => if maxRules < rules.length then sliceTo maxRules rules else rules

-- What goes to the file, or to stdout.
def written (args : Arguments) (outputRules : List Text) : Text :=
  if args.stdout then ['\n'].intercalate outputRules ++ ['\n'] else ['\n'].intercalate outputRules

section Output
variable (r : Runtime)

def CliApp.run (now : Date) (config : Configuration) (args : Arguments) : Except Failure Text :=
  (FilterCompiler.compileWithMetrics r now config).map fun rules => written args (limited args rules)

-- The list as it is compiled, before its checksum line is put in.
def compiled (now : Date) (config : Configuration) : Except Failure (List Text) :=
  Except.mapError compilationError <|
    if ConfigurationSchema.accepts r.isURL r.url config = false then .error ⟨.configuration,r.errorsText config⟩
    else (compileLists r (SourceCompiler.compile r) config).map (generateListHeader now config {} ++ ·)

theorem compiled_rules (now : Date) (config : Configuration) :
    FilterCompiler.compileWithMetrics r now config = (compiled r now config).map (addChecksumToHeader r) := by
  unfold FilterCompiler.compileWithMetrics compiled
  split
  · rfl
  · cases compileLists r (SourceCompiler.compile r) config with
    | error failure => rfl
    | ok finalList => rfl

-- Where addChecksumToHeader puts its line.
def checksumIndex (lines : List Text) : Nat :=
  match lines.findIdx? (includes · "! Compiled by".toList) with
  | none => (lines.findIdx? fun line => trim line ≠ [] && !startsWith line ['!']).getD lines.length
  | some compiledByIndex =>
    if 0 < compiledByIndex ∧ lines[compiledByIndex-1]? = some ['!'] then compiledByIndex-1 else compiledByIndex

theorem checksum_placed (lines : List Text) : addChecksumToHeader r lines =
    lines.take (checksumIndex lines) ++ ["! Checksum: ".toList ++ calculateChecksum r lines] ++ lines.drop (checksumIndex lines) := rfl

-- The lines of what is written. The line break that stdout ends with may be
-- counted as the start of one more line.
def linesRead (args : Arguments) (counted : Bool) (text : Text) : List Text :=
  if args.stdout && !counted then textLines text.dropLast else textLines text

-- A generated checksum line among the lines written is that of these lines.
def Verifies (now : Date) (config : Configuration) (args : Arguments) (counted : Bool) : Prop :=
  ∀ lines text checksum, compiled r now config = .ok lines → CliApp.run r now config args = .ok text →
    (limited args (addChecksumToHeader r lines))[checksumIndex lines]? = some ("! Checksum: ".toList ++ checksum) →
    calculateChecksum r (linesRead args counted text) = checksum

end Output

def unsigned (line : Text) : Bool := !startsWith line "! Checksum:".toList

-- How many of so many lines are written.
def kept (args : Arguments) (length : Nat) : Nat :=
  match args.maxRules with
  | none => length
  | some maxRules =>
    if maxRules < length then (if 0 ≤ maxRules then maxRules.toNat else length-maxRules.natAbs) else length

-- The checksum line is cut off, or the lines read without any checksum line are
-- the compiled lines without any, each at its own line breaks.
def Intact (args : Arguments) (counted : Bool) (lines : List Text) : Prop :=
  kept args (lines.length+1) ≤ checksumIndex lines ∨
    ((lines.take (kept args (lines.length+1)-1)).flatMap textLines ++ if args.stdout && counted then [[]] else []).filter unsigned =
      (lines.filter unsigned).flatMap textLines

section Checksums

theorem limited_kept (args : Arguments) (rules : List Text) : limited args rules = rules.take (kept args rules.length) := by
  unfold limited kept
  cases args.maxRules with
  | none => exact List.take_length.symm
  | some maxRules =>
    dsimp only
    split
    · unfold sliceTo
      split <;> rfl
    · exact List.take_length.symm

theorem checksumIndex_bound (lines : List Text) : checksumIndex lines ≤ lines.length := by
  unfold checksumIndex
  cases found : lines.findIdx? (includes · "! Compiled by".toList) with
  | none =>
    dsimp only
    cases first : lines.findIdx? fun line => trim line ≠ [] && !startsWith line ['!'] with
    | none => exact Nat.le_refl _
    | some index => exact Nat.le_of_lt (List.findIdx?_eq_some_iff_findIdx_eq.mp first).1
  | some index =>
    have inside := (List.findIdx?_eq_some_iff_findIdx_eq.mp found).1
    dsimp only
    split
    · omega
    · omega

-- The rules that are kept with the checksum line among them.
theorem kept_split {index : Nat} (lines : List Text) (line : Text) (count : Nat) (inside : index ≤ lines.length) (reached : index < count) :
    (lines.take index ++ [line] ++ lines.drop index).take count =
      (lines.take (count-1)).take index ++ [line] ++ (lines.take (count-1)).drop index := by
  have short : (lines.take index).length ≤ count := by
    rw [List.length_take]
    omega
  obtain ⟨more,rfl⟩ : ∃ more, count = index+1+more := ⟨count-(index+1),by omega⟩
  have front : (lines.take index ++ [line]).length = index+1 := by
    rw [List.length_append,List.length_take,List.length_singleton]
    omega
  rw [List.take_append,List.take_of_length_le (by omega),front,Nat.add_sub_cancel_left]
  have whole : index+1+more-1 = index+more := by omega
  rw [whole,List.take_take,Nat.min_eq_left (by omega),List.drop_take]
  simp

theorem textLines_piece (piece : Text) (single : '\n' ∉ piece) : textLines piece = [piece] := List.splitOn_eq_singleton single

theorem piece_single (member : piece ∈ textLines text) : '\n' ∉ piece := by
  intro inside
  have free := mem_splitOnP (show piece ∈ text.splitOnP (· == '\n') from member) '\n' inside
  cases free

theorem textLines_written (args : Arguments) (counted : Bool) (outputRules : List Text) (some_ : outputRules ≠ []) :
    linesRead args counted (written args outputRules) = outputRules.flatMap textLines ++ if args.stdout && counted then [[]] else [] := by
  have joined : textLines (['\n'].intercalate outputRules) = outputRules.flatMap textLines := splitOn_join some_
  have more : textLines (['\n'].intercalate outputRules ++ ['\n']) = outputRules.flatMap textLines ++ [[]] := by
    rw [← joined]
    exact List.splitOn_append_cons_self _ []
  unfold linesRead written
  cases args.stdout with
  | false => simpa using joined
  | true =>
    cases counted with
    | false => simpa using joined
    | true => simpa using more

theorem checksum_single (checksum : Text) (single : '\n' ∉ checksum) :
    (textLines ("! Checksum: ".toList ++ checksum)).filter unsigned = [] := by
  have plain : '\n' ∉ "! Checksum: ".toList ++ checksum := by
    rw [List.mem_append,not_or]
    exact ⟨by decide,single⟩
  have signed : unsigned ("! Checksum: ".toList ++ checksum) = false := by
    have begins : "! Checksum: ".toList ++ checksum = "! Checksum:".toList ++ (' ' :: checksum) := rfl
    rw [begins,unsigned,startsWith_append]
    rfl
  rw [textLines_piece _ plain,List.filter_cons_of_neg (by rw [signed]; exact Bool.false_ne_true)]
  rfl

-- The lines that calculateChecksum hashes of what is written.
theorem read_unsigned {index : Nat} (args : Arguments) (counted : Bool) (lines : List Text) (checksum : Text) (count : Nat)
    (single : '\n' ∉ checksum) (inside : index ≤ lines.length) (reached : index < count) :
    (linesRead args counted (written args ((lines.take index ++ ["! Checksum: ".toList ++ checksum] ++ lines.drop index).take count))).filter unsigned =
      ((lines.take (count-1)).flatMap textLines ++ if args.stdout && counted then [[]] else []).filter unsigned := by
  rw [kept_split lines _ count inside reached,textLines_written args counted _ (by simp)]
  have parts := congrArg (List.flatMap textLines) (List.take_append_drop index (lines.take (count-1)))
  rw [List.flatMap_append] at parts
  rw [← parts]
  simp only [List.flatMap_append,List.filter_append,List.flatMap_singleton,checksum_single checksum single,List.append_nil]

-- Texts of lines that hold no line break are alike when the lines are.
theorem join_alike {pieces lines : List Text} (single : ∀ piece ∈ pieces, '\n' ∉ piece) (mark : ['!'] ∈ lines) :
    ['\n'].intercalate pieces = ['\n'].intercalate lines ↔ pieces = lines.flatMap textLines := by
  have split : textLines (['\n'].intercalate lines) = lines.flatMap textLines := splitOn_join (List.ne_nil_of_mem mark)
  constructor
  · intro same
    have some_ : pieces ≠ [] := by
      rintro rfl
      have inside : ['!'] ∈ lines.flatMap textLines := List.mem_flatMap.mpr ⟨['!'],mark,List.mem_singleton_self _⟩
      rw [← split,← same] at inside
      cases List.mem_singleton.mp inside
    have alone : pieces.flatMap textLines = pieces := by
      rw [List.flatMap_congr (fun piece member => textLines_piece piece (single piece member))]
      simp
    rw [← split,← same]
    exact ((splitOn_join some_).trans alone).symm
  · intro same
    rw [same,← split]
    exact List.intercalate_splitOn '\n'

theorem header_marked (now : Date) (config : Configuration) (finalList : List Text) :
    ['!'] ∈ (generateListHeader now config {} ++ finalList).filter unsigned := by
  refine List.mem_filter.mpr ⟨?_,by decide⟩
  exact List.mem_append_left _ List.mem_cons_self

end Checksums

section Verification
variable (r : Runtime)

theorem compiled_header (now : Date) (config : Configuration) (done : compiled r now config = .ok lines) :
    ∃ finalList, lines = generateListHeader now config {} ++ finalList := by
  unfold compiled at done
  split at done
  · cases done
  · cases lists : compileLists r (SourceCompiler.compile r) config with
    | error failure =>
      rw [lists] at done
      cases done
    | ok finalList =>
      rw [lists] at done
      exact ⟨finalList,(Except.ok.inj done).symm⟩

-- What a run writes, and the generated line it shows.
theorem verifies_exact (encoded : ∀ text, '\n' ∉ r.digest text) (now : Date) (config : Configuration) (args : Arguments) (counted : Bool) :
    Verifies r now config args counted ↔ ∀ lines, compiled r now config = .ok lines →
      checksumIndex lines < kept args (lines.length+1) →
        (r.digest (['\n'].intercalate (((lines.take (kept args (lines.length+1)-1)).flatMap textLines ++
          if args.stdout && counted then [[]] else []).filter unsigned))).take 27 = calculateChecksum r lines := by
  have single (lines : List Text) : '\n' ∉ calculateChecksum r lines := fun member => encoded _ (List.mem_of_mem_take member)
  have ran (lines : List Text) (done : compiled r now config = .ok lines) :
      CliApp.run r now config args = .ok (written args (limited args (addChecksumToHeader r lines))) := by
    rw [CliApp.run,compiled_rules,done]
    rfl
  have size (lines : List Text) : (addChecksumToHeader r lines).length = lines.length+1 := by
    have bound := checksumIndex_bound lines
    rw [checksum_placed,List.length_append,List.length_append,List.length_take,List.length_singleton,List.length_drop]
    omega
  have found (lines : List Text) (checksum : Text) :
      (limited args (addChecksumToHeader r lines))[checksumIndex lines]? = some ("! Checksum: ".toList ++ checksum) ↔
        checksumIndex lines < kept args (lines.length+1) ∧ calculateChecksum r lines = checksum := by
    have bound := checksumIndex_bound lines
    rw [limited_kept,size,List.getElem?_take,checksum_placed,List.append_assoc,List.getElem?_append_right (by rw [List.length_take]; omega),
      List.length_take,Nat.min_eq_left bound,Nat.sub_self]
    split
    · rename_i reached
      simp [reached]
    · rename_i cut
      simp [cut]
  have hashed (lines : List Text) (reached : checksumIndex lines < kept args (lines.length+1)) :
      calculateChecksum r (linesRead args counted (written args (limited args (addChecksumToHeader r lines)))) =
        (r.digest (['\n'].intercalate (((lines.take (kept args (lines.length+1)-1)).flatMap textLines ++
          if args.stdout && counted then [[]] else []).filter unsigned))).take 27 := by
    rw [limited_kept,size,checksum_placed]
    exact congrArg (fun hashed : List Text => (r.digest (['\n'].intercalate hashed)).take 27)
      (read_unsigned args counted lines (calculateChecksum r lines) _ (single lines) (checksumIndex_bound lines) reached)
  constructor
  · intro verifies lines done reached
    rw [← hashed lines reached]
    exact verifies lines _ _ done (ran lines done) ((found lines _).mpr ⟨reached,rfl⟩)
  · intro same lines text checksum done wrote shown
    obtain ⟨reached,rfl⟩ := (found lines checksum).mp shown
    rw [ran lines done] at wrote
    cases wrote
    rw [hashed lines reached,same lines done reached]

theorem read_single (lines more : List Text) (blank : more = [] ∨ more = [[]]) :
    ∀ piece ∈ (lines.flatMap textLines ++ more).filter unsigned, '\n' ∉ piece := by
  intro piece member
  rcases List.mem_append.mp (List.mem_of_mem_filter member) with inside | last
  · obtain ⟨line,-,own⟩ := List.mem_flatMap.mp inside
    exact piece_single own
  · rcases blank with rfl | rfl
    · cases last
    · cases List.mem_singleton.mp last
      exact List.not_mem_nil

-- The texts hashed for the generated line and for what is read are the same.
theorem intact_hashes (now : Date) (config : Configuration) (args : Arguments) (counted : Bool) (done : compiled r now config = .ok lines) :
    Intact args counted lines ↔ (checksumIndex lines < kept args (lines.length+1) →
      ['\n'].intercalate (((lines.take (kept args (lines.length+1)-1)).flatMap textLines ++
          if args.stdout && counted then [[]] else []).filter unsigned) = ['\n'].intercalate (lines.filter unsigned)) := by
  obtain ⟨finalList,rfl⟩ := compiled_header r now config done
  have blank : (if args.stdout && counted then [[]] else []) = ([] : List Text) ∨ (if args.stdout && counted then [[]] else []) = ([[]] : List Text) := by
    cases args.stdout && counted with
    | true => exact .inr rfl
    | false => exact .inl rfl
  rw [join_alike (read_single _ _ blank) (header_marked now config finalList),Intact,or_iff_not_imp_left,not_le]

-- Texts that every digest gives one checksum are the same.
theorem digests_tell (one two : Text) :
    (∀ digest : Text → Text, (∀ text, '\n' ∉ digest text) → (digest one).take 27 = (digest two).take 27) ↔ one = two := by
  constructor
  · intro same
    by_contra differ
    have encoded : ∀ text, '\n' ∉ (if text = one then ['a'] else ['b']) := by
      intro text
      split <;> decide
    have told := same (fun text => if text = one then ['a'] else ['b']) encoded
    simp only [if_true,Ne.symm differ,if_false] at told
    cases told
  · rintro rfl digest -
    rfl

theorem written_checksum_exact (now : Date) (config : Configuration) (args : Arguments) (counted : Bool) :
    (∀ digest, (∀ text, '\n' ∉ digest text) → Verifies { r with digest := digest } now config args counted) ↔
      ∀ lines, compiled r now config = .ok lines → Intact args counted lines := by
  constructor
  · intro verifies lines done
    rw [intact_hashes r now config args counted done]
    intro reached
    apply (digests_tell _ _).mp
    intro digest encoded
    exact (verifies_exact { r with digest := digest } encoded now config args counted).mp (verifies digest encoded) lines done reached
  · intro intact digest encoded
    apply (verifies_exact { r with digest := digest } encoded now config args counted).mpr
    intro lines done reached
    have same := (intact_hashes r now config args counted done).mp (intact lines done) reached
    exact congrArg (fun text => (digest text).take 27) same

end Verification

-- A digest that the end of a text decides, and a list of two rules cut after
-- the first.
def reversed (text : Text) : Text := (text.filter (· ≠ '\n')).reverse
def twoRules : Runtime := { twoHosts with digest := reversed }

theorem reversed_single (text : Text) : '\n' ∉ reversed text := by simp [reversed]

theorem truncated_differs : ¬Verifies twoRules epoch (configured none unfiltered) { maxRules := some 11 } false := by
  rw [verifies_exact twoRules reversed_single]
  intro same
  have lines : ∃ lines, compiled twoRules epoch (configured none unfiltered) = .ok lines ∧
      checksumIndex lines < kept { maxRules := some 11 } (lines.length+1) ∧
      (twoRules.digest (['\n'].intercalate (((lines.take (kept { maxRules := some 11 } (lines.length+1)-1)).flatMap textLines ++ []).filter unsigned))).take 27 ≠
        calculateChecksum twoRules lines := by
    refine ⟨_,rfl,?_,?_⟩
    · decide +kernel
    · decide +kernel
  obtain ⟨lines,done,reached,differs⟩ := lines
  exact differs (same lines done reached)

section Whole

theorem unsigned_pieces (lines : List Text) (plain : ∀ line ∈ lines, unsigned line = true → ∀ piece ∈ textLines line, unsigned piece = true) :
    ((lines.filter unsigned).flatMap textLines).length ≤ ((lines.flatMap textLines).filter unsigned).length ∧
      (((lines.flatMap textLines).filter unsigned).length = ((lines.filter unsigned).flatMap textLines).length →
        ∀ line ∈ lines, unsigned line = false → (textLines line).filter unsigned = []) := by
  induction lines with
  | nil => exact ⟨Nat.le_refl 0,fun _ line member => (nomatch member)⟩
  | cons line rest ih =>
    obtain ⟨own,others⟩ := List.forall_mem_cons.mp plain
    obtain ⟨fewer,alike⟩ := ih others
    rw [List.flatMap_cons,List.filter_append,List.length_append]
    cases shown : unsigned line with
    | true =>
      have whole : (textLines line).filter unsigned = textLines line := List.filter_eq_self.mpr (own shown)
      rw [List.filter_cons_of_pos shown,List.flatMap_cons,List.length_append,whole]
      refine ⟨Nat.add_le_add_left fewer _,?_⟩
      intro same
      refine List.forall_mem_cons.mpr ⟨?_,alike (Nat.add_left_cancel same)⟩
      intro signed
      rw [shown] at signed
      cases signed
    | false =>
      rw [List.filter_cons_of_neg (by rw [shown]; exact Bool.false_ne_true)]
      refine ⟨Nat.le_trans fewer (Nat.le_add_left _ _),?_⟩
      intro same
      have none : ((textLines line).filter unsigned).length = 0 := by omega
      have rest : ((rest.flatMap textLines).filter unsigned).length = ((rest.filter unsigned).flatMap textLines).length := by omega
      exact List.forall_mem_cons.mpr ⟨fun _ => List.eq_nil_of_length_eq_zero none,alike rest⟩

theorem pieces_exact (lines : List Text) : (lines.flatMap textLines).filter unsigned = (lines.filter unsigned).flatMap textLines ↔
    ∀ line ∈ lines, ∀ piece ∈ textLines line, unsigned piece = unsigned line := by
  constructor
  · intro same
    have plain : ∀ line ∈ lines, unsigned line = true → ∀ piece ∈ textLines line, unsigned piece = true := by
      intro line member shown piece inside
      have listed : piece ∈ (lines.filter unsigned).flatMap textLines :=
        List.mem_flatMap.mpr ⟨line,List.mem_filter.mpr ⟨member,shown⟩,inside⟩
      rw [← same] at listed
      exact (List.mem_filter.mp listed).2
    intro line member piece inside
    cases shown : unsigned line with
    | true => exact plain line member shown piece inside
    | false =>
      have none := (unsigned_pieces lines plain).2 (congrArg List.length same) line member shown
      simpa using List.filter_eq_nil_iff.mp none piece inside
  · intro alike
    induction lines with
    | nil => rfl
    | cons line rest ih =>
      obtain ⟨own,others⟩ := List.forall_mem_cons.mp alike
      rw [List.flatMap_cons,List.filter_append,ih others]
      cases shown : unsigned line with
      | true =>
        rw [List.filter_cons_of_pos shown,List.flatMap_cons,List.filter_eq_self.mpr fun piece inside => (own piece inside).trans shown]
      | false =>
        rw [List.filter_cons_of_neg (by rw [shown]; exact Bool.false_ne_true)]
        have none : (textLines line).filter unsigned = [] := by
          apply List.filter_eq_nil_iff.mpr
          intro piece inside
          rw [own piece inside,shown]
          exact Bool.false_ne_true
        rw [none,List.nil_append]

-- A list that is written whole to a file verifies unless a line break hides a
-- checksum line in another line, or another line behind a checksum line.
theorem whole_intact_exact (args : Arguments) (counted : Bool) (lines : List Text) (whole : kept args (lines.length+1) = lines.length+1)
    (ended : (args.stdout && counted) = false) :
    Intact args counted lines ↔ ∀ line ∈ lines, ∀ piece ∈ textLines line, unsigned piece = unsigned line := by
  have placed := checksumIndex_bound lines
  have shown : ¬kept args (lines.length+1) ≤ checksumIndex lines := by omega
  rw [Intact,or_iff_right shown,whole,ended,Nat.add_sub_cancel,List.take_length,if_neg Bool.false_ne_true,List.append_nil]
  exact pieces_exact lines

end Whole

end AdblockCompiler.Cli
