import AdblockCompiler.JsText

-- JSON values and the texts that JSON.stringify writes for them.
namespace JsonText
open JsText

def isNumberChar (c : Char) : Bool := c.isDigit || "+-.e".toList.contains c

-- A finite number, by its shortest decimal text: that is what is printed for
-- it, and no two numbers share it.
structure Number where
  text : Text
  digits : text.all isNumberChar = true
  some : text ≠ []
  deriving DecidableEq, Repr

inductive Json where
  | null
  | bool (truth : Bool)
  | number (value : Number)
  | string (text : Text)
  | array (items : List Json)
  | object (fields : List (Text × Json))

-- QuoteJSONString.
def hexDigit (n : Nat) : Char := if n < 10 then Char.ofNat (48+n) else Char.ofNat (87+n)

def escapeChar (c : Char) : Text :=
  if c = '"' then ['\\','"']
  else if c = '\\' then ['\\','\\']
  else if c = '\n' then ['\\','n']
  else if c = '\r' then ['\\','r']
  else if c = '\t' then ['\\','t']
  else if c.toNat = 8 then ['\\','b']
  else if c.toNat = 12 then ['\\','f']
  else if c.toNat < 32 then ['\\','u','0','0',hexDigit (c.toNat/16),hexDigit (c.toNat%16)]
  else [c]

def quote (text : Text) : Text := '"' :: (text.flatMap escapeChar ++ ['"'])

def join : List Text → Text
  | [] => []
  | item :: rest => item ++ rest.flatMap (',' :: ·)

-- JSON.stringify without spaces.
mutual
def stringify : Json → Text
  | .null => "null".toList
  | .bool truth => if truth then "true".toList else "false".toList
  | .number value => value.text
  | .string text => quote text
  | .array items => '[' :: (join (stringifyItems items) ++ [']'])
  | .object fields => '{' :: (join (stringifyFields fields) ++ ['}'])
termination_by structural value => value
def stringifyItems : List Json → List Text
  | [] => []
  | item :: rest => stringify item :: stringifyItems rest
termination_by structural items => items
def stringifyFields : List (Text × Json) → List Text
  | [] => []
  | field :: rest => stringifyField field :: stringifyFields rest
termination_by structural fields => fields
def stringifyField : Text × Json → Text
  | (key,value) => quote key ++ ':' :: stringify value
termination_by structural field => field
end

example : stringify (.object [("a\n".toList,.array [.null,.bool true,.string "\"".toList])]) =
    "\x7b\"a\\n\":[null,true,\"\\\"\"]\x7d".toList := by decide

-- Induction over the values inside a value.
@[elab_as_elim] theorem Json.induct {P : Json → Prop} (value : Json) (null : P .null) (bool : ∀ truth, P (.bool truth))
    (number : ∀ value, P (.number value)) (string : ∀ text, P (.string text))
    (array : ∀ items, (∀ item ∈ items, P item) → P (.array items))
    (object : ∀ fields, (∀ field ∈ fields, P field.2) → P (.object fields)) : P value :=
  @Json.rec P (fun items => ∀ item ∈ items, P item) (fun fields => ∀ field ∈ fields, P field.2) (fun field => P field.2)
    null bool number string array object (fun _ member => by cases member)
    (fun _ _ first rest => List.forall_mem_cons.mpr ⟨first,rest⟩) (fun _ member => by cases member)
    (fun _ _ first rest => List.forall_mem_cons.mpr ⟨first,rest⟩) (fun _ _ inner => inner) value

theorem stringifyItems_map (items : List Json) : stringifyItems items = items.map stringify := by
  induction items with
  | nil => rfl
  | cons item rest ih => exact congrArg (stringify item :: ·) ih

theorem stringifyFields_map (fields : List (Text × Json)) : stringifyFields fields = fields.map stringifyField := by
  induction fields with
  | nil => rfl
  | cons field rest ih => exact congrArg (stringifyField field :: ·) ih

section Reading

-- Reading one escaped character back.
def hexValue (c : Char) : Nat := if c.isDigit then c.toNat-48 else c.toNat-87

def readChar : Text → Option (Char × Text)
  | '\\' :: 'u' :: '0' :: '0' :: high :: low :: rest => some (Char.ofNat (hexValue high*16+hexValue low),rest)
  | '\\' :: '"' :: rest => some ('"',rest)
  | '\\' :: '\\' :: rest => some ('\\',rest)
  | '\\' :: 'n' :: rest => some ('\n',rest)
  | '\\' :: 'r' :: rest => some ('\r',rest)
  | '\\' :: 't' :: rest => some ('\t',rest)
  | '\\' :: 'b' :: rest => some (Char.ofNat 8,rest)
  | '\\' :: 'f' :: rest => some (Char.ofNat 12,rest)
  | '\\' :: _ => none
  | '"' :: _ => none
  | c :: rest => some (c,rest)
  | [] => none

theorem hexDigit_value : ∀ n < 16, hexValue (hexDigit n) = n := by decide

theorem readChar_escaped (c : Char) (rest : Text) : readChar (escapeChar c ++ rest) = some (c,rest) := by
  unfold escapeChar
  split
  · rename_i same; subst same; rfl
  split
  · rename_i same; subst same; rfl
  split
  · rename_i same; subst same; rfl
  split
  · rename_i same; subst same; rfl
  split
  · rename_i same; subst same; rfl
  split
  · rename_i same
    have shown : Char.ofNat 8 = c := by rw [← same,Char.ofNat_toNat]
    rw [← shown]; rfl
  split
  · rename_i same
    have shown : Char.ofNat 12 = c := by rw [← same,Char.ofNat_toNat]
    rw [← shown]; rfl
  split
  · rename_i low
    have one := hexDigit_value (c.toNat/16) (by omega)
    have two := hexDigit_value (c.toNat%16) (by omega)
    have whole : c.toNat/16*16+c.toNat%16 = c.toNat := by omega
    show some (Char.ofNat (hexValue (hexDigit (c.toNat/16))*16+hexValue (hexDigit (c.toNat%16))),rest) = _
    rw [one,two,whole,Char.ofNat_toNat]
  · unfold readChar
    split <;> simp_all

theorem quote_head (text rest : Text) : quote text ++ rest = '"' :: (text.flatMap escapeChar ++ '"' :: rest) := by
  simp [quote]

-- A printed text, read back with what follows it.
theorem letters_read (one two r s : Text)
    (same : one.flatMap escapeChar ++ '"' :: r = two.flatMap escapeChar ++ '"' :: s) : one = two ∧ r = s := by
  have stops : ∀ rest, readChar ('"' :: rest) = none := fun _ => rfl
  induction one generalizing two with
  | nil =>
    cases two with
    | nil => exact ⟨rfl,(List.cons.inj same).2⟩
    | cons d two =>
      have read := readChar_escaped d (two.flatMap escapeChar ++ '"' :: s)
      rw [List.flatMap_cons,List.append_assoc,List.flatMap_nil,List.nil_append] at same
      rw [← same,stops] at read
      cases read
  | cons c one ih =>
    have read := readChar_escaped c (one.flatMap escapeChar ++ '"' :: r)
    rw [List.flatMap_cons,List.append_assoc] at same
    cases two with
    | nil =>
      rw [List.flatMap_nil,List.nil_append] at same
      rw [same,stops] at read
      cases read
    | cons d two =>
      rw [List.flatMap_cons,List.append_assoc] at same
      rw [same,readChar_escaped,Option.some.injEq,Prod.mk.injEq] at read
      obtain ⟨rfl,after⟩ := read
      obtain ⟨rfl,tail⟩ := ih two after.symm
      exact ⟨rfl,tail⟩

theorem quote_read (one two r s : Text) (same : quote one ++ r = quote two ++ s) : one = two ∧ r = s := by
  rw [quote_head,quote_head] at same
  exact letters_read one two r s (List.cons.inj same).2

-- What may follow a printed value: nothing that continues a number.
def Apart (rest : Text) : Prop := rest.head?.any isNumberChar = false

theorem number_read (one two : Number) (apart : Apart r) (apart' : Apart s) (same : one.text ++ r = two.text ++ s) :
    one = two ∧ r = s := by
  have scan : ∀ digits rest : Text, digits.all isNumberChar = true → Apart rest →
      (digits ++ rest).takeWhile isNumberChar = digits := by
    intro digits rest all apart
    have inside : ∀ c ∈ digits, isNumberChar c = true := List.all_eq_true.mp all
    rw [List.takeWhile_append_of_pos inside]
    cases rest with
    | nil => simp
    | cons c rest =>
      have stop : isNumberChar c = false := by simpa [Apart] using apart
      simp [stop]
  have digits : one.text = two.text := by
    rw [← scan one.text r one.digits apart,same,scan two.text s two.digits apart']
  refine ⟨?_,?_⟩
  · cases one
    cases two
    cases digits
    rfl
  · rw [digits] at same
    exact List.append_cancel_left same

-- A printer whose texts can be told apart in front of anything that may follow.
def ReadBack (print : α → Text) (item : α) : Prop :=
  ∀ other r s, Apart r → Apart s → print item ++ r = print other ++ s → item = other ∧ r = s

theorem tail_apart (print : α → Text) {close : Char} (ends : isNumberChar close = false) (more : List α) (rest : Text) :
    Apart ((more.map print).flatMap (',' :: ·) ++ close :: rest) := by
  cases more with
  | nil => exact ends
  | cons item more => exact (by decide : isNumberChar ',' = false)

theorem tail_read {print : α → Text} {close : Char} (comma : close ≠ ',') (ends : isNumberChar close = false)
    (items : List α) (reads : ∀ item ∈ items, ReadBack print item) (others : List α) (r s : Text)
    (same : (items.map print).flatMap (',' :: ·) ++ close :: r = (others.map print).flatMap (',' :: ·) ++ close :: s) :
    items = others ∧ r = s := by
  induction items generalizing others with
  | nil =>
    cases others with
    | nil => exact ⟨rfl,(List.cons.inj same).2⟩
    | cons other others => exact absurd (List.cons.inj same).1 comma
  | cons item items ih =>
    cases others with
    | nil => exact absurd (List.cons.inj same).1.symm comma
    | cons other others =>
      rw [List.map_cons,List.map_cons,List.flatMap_cons,List.flatMap_cons,List.append_assoc,List.append_assoc] at same
      obtain ⟨rfl,after⟩ := reads item List.mem_cons_self other _ _ (tail_apart print ends items r)
        (tail_apart print ends others s) (List.cons.inj same).2
      obtain ⟨rfl,rest⟩ := ih (fun item member => reads item (List.mem_cons_of_mem _ member)) others after
      exact ⟨rfl,rest⟩

theorem join_read {print : α → Text} {close : Char} (comma : close ≠ ',') (ends : isNumberChar close = false)
    (opens : ∀ item rest, (print item ++ rest).head? ≠ some close) (items : List α)
    (reads : ∀ item ∈ items, ReadBack print item) (others : List α) (r s : Text)
    (same : join (items.map print) ++ close :: r = join (others.map print) ++ close :: s) : items = others ∧ r = s := by
  cases items with
  | nil =>
    cases others with
    | nil => exact ⟨rfl,(List.cons.inj same).2⟩
    | cons other others =>
      rw [List.map_cons,join,List.append_assoc] at same
      exact absurd (congrArg List.head? same).symm (opens other _)
  | cons item items =>
    cases others with
    | nil =>
      rw [List.map_cons,join,List.append_assoc] at same
      exact absurd (congrArg List.head? same) (opens item _)
    | cons other others =>
      rw [List.map_cons,List.map_cons,join,join,List.append_assoc,List.append_assoc] at same
      obtain ⟨rfl,after⟩ := reads item List.mem_cons_self other _ _ (tail_apart print ends items r)
        (tail_apart print ends others s) same
      have rest : ∀ item ∈ items, ReadBack print item := fun item member => reads item (List.mem_cons_of_mem _ member)
      obtain ⟨rfl,left⟩ := tail_read comma ends items rest others r s after
      exact ⟨rfl,left⟩

-- The first character of a printed value shows its kind.
inductive Kind where
  | null | bool | number | string | array | object
  deriving DecidableEq, Repr

def Json.kind : Json → Kind
  | .null => .null
  | .bool _ => .bool
  | .number _ => .number
  | .string _ => .string
  | .array _ => .array
  | .object _ => .object

def kindOf (c : Char) : Kind :=
  if c = 'n' then .null else if c = 't' ∨ c = 'f' then .bool else if c = '"' then .string
  else if c = '[' then .array else if c = '{' then .object else .number

theorem number_kind (digit : isNumberChar c = true) : kindOf c = .number := by
  have differs : ∀ d, isNumberChar d = false → c ≠ d := by
    intro d other same
    rw [same,other] at digit
    cases digit
  unfold kindOf
  rw [if_neg (differs 'n' (by decide)),if_neg (not_or.mpr ⟨differs 't' (by decide),differs 'f' (by decide)⟩),
    if_neg (differs '"' (by decide)),if_neg (differs '[' (by decide)),if_neg (differs '{' (by decide))]

theorem stringify_head (value : Json) (rest : Text) : (stringify value ++ rest).head?.map kindOf = some value.kind := by
  cases value with
  | null => rfl
  | bool truth => cases truth <;> rfl
  | number value =>
    obtain ⟨text,digits,some⟩ := value
    cases text with
    | nil => exact absurd rfl some
    | cons c text =>
      have digit : isNumberChar c = true := List.all_eq_true.mp digits c List.mem_cons_self
      exact congrArg Option.some (number_kind digit)
  | string text => rfl
  | array items => rfl
  | object fields => rfl

theorem same_kind (same : stringify one ++ r = stringify two ++ s) : one.kind = two.kind := by
  have first := stringify_head one r
  rw [same,stringify_head two s] at first
  exact (Option.some.inj first).symm

theorem field_read (field : Text × Json) (read : ReadBack stringify field.2) : ReadBack stringifyField field := by
  obtain ⟨key,value⟩ := field
  intro other r s apart apart' same
  obtain ⟨key',value'⟩ := other
  simp only [stringifyField,List.append_assoc,List.cons_append] at same
  obtain ⟨rfl,after⟩ := quote_read key key' _ _ same
  obtain ⟨rfl,rest⟩ := read value' r s apart apart' (List.cons.inj after).2
  exact ⟨rfl,rest⟩

theorem value_opens (close : Char) (closes : kindOf close = .number) (other : isNumberChar close = false) (value : Json)
    (rest : Text) : (stringify value ++ rest).head? ≠ some close := by
  intro first
  have kind := stringify_head value rest
  rw [first,Option.map_some,closes,Option.some.injEq] at kind
  cases value with
  | number value =>
    obtain ⟨text,digits,some⟩ := value
    cases text with
    | nil => exact some rfl
    | cons c text =>
      obtain rfl : c = close := Option.some.inj first
      have digit : isNumberChar c = true := List.all_eq_true.mp digits c List.mem_cons_self
      rw [other] at digit
      cases digit
  | null | bool _ | string _ | array _ | object _ => cases kind

theorem stringify_read (value : Json) : ReadBack stringify value := by
  induction value using Json.induct with
  | null =>
    intro other r s _ _ same
    have kind := same_kind same
    cases other <;> cases kind
    exact ⟨rfl,List.append_cancel_left same⟩
  | bool truth =>
    intro other r s _ _ same
    have kind := same_kind same
    cases other <;> cases kind
    rename_i truth'
    cases truth <;> cases truth'
    · exact ⟨rfl,List.append_cancel_left same⟩
    · exact absurd (List.cons.inj same).1 (by decide)
    · exact absurd (List.cons.inj same).1 (by decide)
    · exact ⟨rfl,List.append_cancel_left same⟩
  | number value =>
    intro other r s apart apart' same
    have kind := same_kind same
    cases other <;> cases kind
    obtain ⟨rfl,rest⟩ := number_read _ _ apart apart' same
    exact ⟨rfl,rest⟩
  | string text =>
    intro other r s _ _ same
    have kind := same_kind same
    cases other <;> cases kind
    obtain ⟨rfl,rest⟩ := quote_read _ _ r s same
    exact ⟨rfl,rest⟩
  | array items reads =>
    intro other r s _ _ same
    have kind := same_kind same
    cases other <;> cases kind
    rename_i others
    simp only [stringify,stringifyItems_map,List.cons_append,List.append_assoc,List.nil_append] at same
    have opens := value_opens ']' (by decide) (by decide)
    obtain ⟨rfl,rest⟩ := join_read (by decide) (by decide) opens items reads others r s (List.cons.inj same).2
    exact ⟨rfl,rest⟩
  | object fields reads =>
    intro other r s _ _ same
    have kind := same_kind same
    cases other <;> cases kind
    rename_i others
    simp only [stringify,stringifyFields_map,List.cons_append,List.append_assoc,List.nil_append] at same
    have opens : ∀ (field : Text × Json) rest, (stringifyField field ++ rest).head? ≠ some '}' := by
      intro field rest first
      obtain ⟨key,value⟩ := field
      simp only [stringifyField,quote,List.cons_append,List.head?_cons,Option.some.injEq] at first
      exact absurd first (by decide)
    obtain ⟨rfl,rest⟩ := join_read (by decide) (by decide) opens fields
      (fun field member => field_read field (reads field member)) others r s (List.cons.inj same).2
    exact ⟨rfl,rest⟩

-- Different values print differently.
theorem stringify_injective (same : stringify one = stringify two) : one = two := by
  have read := stringify_read one two [] [] rfl rfl
  rw [List.append_nil,List.append_nil] at read
  exact (read same).1

-- No line of a printed value ends inside it.
theorem escapeChar_single (c : Char) : '\n' ∉ escapeChar c := by
  have low : ∀ n < 16, '\n' ≠ hexDigit n := by decide
  unfold escapeChar
  split
  · decide
  split
  · decide
  split
  · decide
  split
  · decide
  split
  · decide
  split
  · decide
  split
  · decide
  split
  · have high := low (c.toNat/16) (by omega)
    have rest := low (c.toNat%16) (by omega)
    simp [high,rest]
  · rename_i other _ _ _ _ _
    simpa using Ne.symm other

theorem quote_single (text : Text) : '\n' ∉ quote text := by
  simp only [quote,List.mem_cons,List.mem_append,List.mem_flatMap,List.not_mem_nil,or_false]
  intro member
  rcases member with open_ | ⟨c,-,inside⟩ | close
  · cases open_
  · exact escapeChar_single c inside
  · cases close

theorem join_single {parts : List Text} (single : ∀ part ∈ parts, '\n' ∉ part) : '\n' ∉ join parts := by
  cases parts with
  | nil => exact List.not_mem_nil
  | cons part rest =>
    simp only [join,List.mem_append,List.mem_flatMap,List.mem_cons]
    intro member
    rcases member with first | ⟨other,inside,comma | later⟩
    · exact single part List.mem_cons_self first
    · cases comma
    · exact single other (List.mem_cons_of_mem part inside) later

theorem stringify_single (value : Json) : '\n' ∉ stringify value := by
  induction value using Json.induct with
  | null => decide
  | bool truth => cases truth <;> decide
  | number value =>
    intro member
    cases List.all_eq_true.mp value.digits '\n' member
  | string text => exact quote_single text
  | array items ih =>
    have inner : '\n' ∉ join (stringifyItems items) := join_single (by simpa [stringifyItems_map] using ih)
    simp [stringify,inner]
  | object fields ih =>
    have inner : '\n' ∉ join (stringifyFields fields) := by
      refine join_single ?_
      rw [stringifyFields_map,List.forall_mem_map]
      intro field member
      obtain ⟨name,value⟩ := field
      have later := ih (name,value) member
      simp [stringifyField,quote_single,later]
    simp [stringify,inner]

end Reading

section Sorting

-- The units that a string is indexed, compared and hashed by.
def charUnits (c : Char) : List Nat :=
  if c.toNat < 0x10000 then [c.toNat] else [0xD800+(c.toNat-0x10000)/0x400,0xDC00+(c.toNat-0x10000)%0x400]

def codeUnits (text : Text) : List Nat := text.flatMap charUnits

theorem char_valid (c : Char) : c.toNat < 0xD800 ∨ 0xDFFF < c.toNat ∧ c.toNat < 0x110000 := c.valid

theorem charUnits_read (c d : Char) (r s : List Nat) (same : charUnits c ++ r = charUnits d ++ s) : c = d ∧ r = s := by
  have one := char_valid c
  have two := char_valid d
  have equal : c.toNat = d.toNat ∧ r = s := by
    unfold charUnits at same
    split at same <;> split at same
    · simpa using same
    · have first := (List.cons.inj same).1
      omega
    · have first := (List.cons.inj same).1
      omega
    · obtain ⟨high,rest⟩ := List.cons.inj same
      obtain ⟨low,tail⟩ := List.cons.inj rest
      exact ⟨by omega,tail⟩
  exact ⟨Char.toNat_inj.mp equal.1,equal.2⟩

theorem codeUnits_injective (one two : Text) (same : codeUnits one = codeUnits two) : one = two := by
  have some : ∀ c : Char, charUnits c ≠ [] := by
    intro c
    unfold charUnits
    split <;> simp
  induction one generalizing two with
  | nil =>
    cases two with
    | nil => rfl
    | cons d two => simp [codeUnits,some d] at same
  | cons c one ih =>
    cases two with
    | nil => simp [codeUnits,some c] at same
    | cons d two =>
      rw [codeUnits,codeUnits,List.flatMap_cons,List.flatMap_cons] at same
      obtain ⟨rfl,rest⟩ := charUnits_read c d _ _ same
      rw [ih two rest]

-- Array.prototype.sort on names, and on what the names carry.
def byName (one two : Text × α) : Prop := codeUnits one.1 ≤ codeUnits two.1

instance : DecidableRel (byName (α := α)) := fun one two => inferInstanceAs (Decidable (codeUnits one.1 ≤ codeUnits two.1))
instance : Std.Total (byName (α := α)) := ⟨fun one two => le_total (codeUnits one.1) (codeUnits two.1)⟩
instance : IsTrans (Text × α) byName := ⟨fun _ _ _ => le_trans⟩

def sortByName (fields : List (Text × α)) : List (Text × α) := fields.insertionSort byName

def sortNames (names : List Text) : List Text := names.insertionSort fun one two => codeUnits one ≤ codeUnits two

example : sortNames ["b".toList,"a".toList,"ab".toList] = ["a".toList,"ab".toList,"b".toList] := by decide

-- With different names the sorted list does not depend on the order before.
theorem sortByName_perm {fields others : List (Text × α)} (perm : fields.Perm others)
    (distinct : (fields.map Prod.fst).Nodup) : sortByName fields = sortByName others := by
  have one : (sortByName fields).Perm fields := List.perm_insertionSort byName fields
  have two : (sortByName others).Perm others := List.perm_insertionSort byName others
  refine List.Perm.eq_of_pairwise ?_ (List.pairwise_insertionSort byName fields)
    (List.pairwise_insertionSort byName others) (one.trans (perm.trans two.symm))
  intro a b left right below above
  have names : a.1 = b.1 := codeUnits_injective _ _ (le_antisymm below above)
  have inside : b ∈ fields := perm.mem_iff.mpr (two.mem_iff.mp right)
  exact List.inj_on_of_nodup_map distinct (one.mem_iff.mp left) inside names

end Sorting

-- Equal up to the order of the keys of their objects.
inductive Reordered : Json → Json → Prop where
  | refl (value : Json) : Reordered value value
  | trans (one : Reordered first middle) (two : Reordered middle last) : Reordered first last
  | keys (perm : fields.Perm others) (distinct : (fields.map Prod.fst).Nodup) :
      Reordered (.object fields) (.object others)
  | item (before after : List Json) (inner : Reordered value other) :
      Reordered (.array (before ++ value :: after)) (.array (before ++ other :: after))
  | field (before after : List (Text × Json)) (key : Text) (inner : Reordered value other) :
      Reordered (.object (before ++ (key,value) :: after)) (.object (before ++ (key,other) :: after))

theorem Reordered.symm (reordered : Reordered one two) : Reordered two one := by
  induction reordered with
  | refl value => exact .refl value
  | trans first second ihFirst ihSecond => exact .trans ihSecond ihFirst
  | keys perm distinct => exact .keys perm.symm ((perm.map Prod.fst).nodup_iff.mp distinct)
  | item before after inner ih => exact .item before after ih
  | field before after key inner ih => exact .field before after key ih

theorem items_reordered (change : Json → Json) (items : List Json) (inner : ∀ item ∈ items, Reordered item (change item))
    (before : List Json) : Reordered (.array (before ++ items)) (.array (before ++ items.map change)) := by
  induction items generalizing before with
  | nil => exact .refl _
  | cons item items ih =>
    have first := Reordered.item before items (inner item List.mem_cons_self)
    have rest := ih (fun item member => inner item (List.mem_cons_of_mem _ member)) (before ++ [change item])
    rw [List.append_assoc,List.append_assoc] at rest
    exact first.trans rest

theorem fields_reordered (change : Json → Json) (fields : List (Text × Json))
    (inner : ∀ field ∈ fields, Reordered field.2 (change field.2)) (before : List (Text × Json)) :
    Reordered (.object (before ++ fields)) (.object (before ++ fields.map (Prod.map id change))) := by
  induction fields generalizing before with
  | nil => exact .refl _
  | cons field fields ih =>
    obtain ⟨key,value⟩ := field
    have first := Reordered.field before fields key (inner (key,value) List.mem_cons_self)
    have rest := ih (fun field member => inner field (List.mem_cons_of_mem _ member)) (before ++ [(key,change value)])
    rw [List.append_assoc,List.append_assoc] at rest
    exact first.trans rest

-- No object inside has a key twice.
inductive Distinct : Json → Prop where
  | null : Distinct .null
  | bool (truth : Bool) : Distinct (.bool truth)
  | number (value : Number) : Distinct (.number value)
  | string (text : Text) : Distinct (.string text)
  | array (inner : ∀ item ∈ items, Distinct item) : Distinct (.array items)
  | object (names : (fields.map Prod.fst).Nodup) (inner : ∀ field ∈ fields, Distinct field.2) :
      Distinct (.object fields)

-- The value with the keys of every object in order.
mutual
def canonical : Json → Json
  | .null => .null
  | .bool truth => .bool truth
  | .number value => .number value
  | .string text => .string text
  | .array items => .array (canonicalItems items)
  | .object fields => .object (sortByName (canonicalFields fields))
termination_by structural value => value
def canonicalItems : List Json → List Json
  | [] => []
  | item :: rest => canonical item :: canonicalItems rest
termination_by structural items => items
def canonicalFields : List (Text × Json) → List (Text × Json)
  | [] => []
  | field :: rest => canonicalField field :: canonicalFields rest
termination_by structural fields => fields
def canonicalField : Text × Json → Text × Json
  | (key,value) => (key,canonical value)
termination_by structural field => field
end

theorem canonicalItems_map (items : List Json) : canonicalItems items = items.map canonical := by
  induction items with
  | nil => rfl
  | cons item rest ih => exact congrArg (canonical item :: ·) ih

theorem canonicalFields_map (fields : List (Text × Json)) :
    canonicalFields fields = fields.map (Prod.map id canonical) := by
  induction fields with
  | nil => rfl
  | cons field rest ih =>
    obtain ⟨key,value⟩ := field
    exact congrArg ((key,canonical value) :: ·) ih

theorem sortByName_map (change : α → β) (fields : List (Text × α)) :
    sortByName (fields.map (Prod.map id change)) = (sortByName fields).map (Prod.map id change) :=
  (List.map_insertionSort byName byName (Prod.map id change) fields fun _ _ _ _ => Iff.rfl).symm

theorem canonical_reordered (distinct : Distinct value) : Reordered value (canonical value) := by
  induction distinct with
  | null => exact .refl _
  | bool truth => exact .refl _
  | number value => exact .refl _
  | string text => exact .refl _
  | array inner ih =>
    rw [canonical,canonicalItems_map]
    exact items_reordered canonical _ ih []
  | @object fields names inner ih =>
    rw [canonical,canonicalFields_map]
    refine (fields_reordered canonical fields ih []).trans (.keys (List.perm_insertionSort _ _).symm ?_)
    rw [List.nil_append,List.map_map]
    exact names

end JsonText
