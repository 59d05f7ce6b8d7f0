import AdblockCompiler.Validation

namespace AdblockCompiler.TldUtils
open JsText Rules Validation

def COMMON_PUBLIC_SUFFIXES : List Text :=
  ["com","org","net","edu","gov","mil","int","info","biz","name","pro","aero","coop","museum","app","dev","io","co","me","tv",
    "cc","ws","mobi","asia","tel","jobs","travel","xxx","cat","uk","us","ca","au","de","fr","it","es","nl","be","ch","at","se",
    "no","dk","fi","pl","cz","ru","ua","br","mx","ar","cl","co","pe","ve","jp","cn","kr","tw","hk","sg","in","id","my","th",
    "vn","ph","za","eg","ng","ke","nz","il","ae","sa","tr","gr","pt","ie","hu","ro","xyz","online","site","tech","store","blog",
    "cloud","club","shop","live","news","world","network","digital","media","global","email","support","solutions","services",
    "agency","company","systems","technology","marketing","consulting"].map String.toList

def MULTI_PART_SUFFIXES : List Text :=
  ["co.uk","org.uk","me.uk","ac.uk","gov.uk","net.uk","sch.uk","com.au","net.au","org.au","edu.au","gov.au","asn.au","id.au",
    "com.br","net.br","org.br","gov.br","edu.br","co.jp","or.jp","ne.jp","ac.jp","go.jp","co.in","net.in","org.in","gen.in",
    "firm.in","ind.in","co.za","org.za","net.za","gov.za","edu.za","co.nz","net.nz","org.nz","govt.nz","ac.nz","de.com",
    "eu.com","eu.org","com.ru","net.ru","org.ru","com.cn","net.cn","org.cn","gov.cn","edu.cn","co.kr","or.kr","ne.kr","go.kr",
    "ac.kr","com.tw","net.tw","org.tw","gov.tw","edu.tw","com.hk","net.hk","org.hk","gov.hk","edu.hk","com.sg","net.sg",
    "org.sg","gov.sg","edu.sg","com.mx","net.mx","org.mx","gob.mx","edu.mx","com.ar","net.ar","org.ar","gob.ar","edu.ar",
    "co.id","or.id","web.id","sch.id","go.id","com.my","net.my","org.my","gov.my","edu.my","co.th","or.th","ac.th","go.th",
    "in.th","com.vn","net.vn","org.vn","gov.vn","edu.vn","com.ph","net.ph","org.ph","gov.ph","edu.ph","com.tr","net.tr",
    "org.tr","gov.tr","edu.tr","com.eg","net.eg","org.eg","gov.eg","edu.eg","co.il","net.il","org.il","gov.il","ac.il","com.sa",
    "net.sa","org.sa","gov.sa","edu.sa","ae.org","com.ae","net.ae","org.ae","gov.ae"].map String.toList

def isHexDigit (c : Char) : Bool := c.isDigit || ('a' ≤ c && c ≤ 'f') || ('A' ≤ c && c ≤ 'F')

def parseInt (digits : Text) : Nat := digits.foldl (fun n c => 10*n+(c.toNat-48)) 0

-- /^(\d{1,3}\.){3}\d{1,3}$/ with no part above 255.
def isIPv4 (str : Text) : Bool :=
  let parts := str.splitOn '.'
  parts.length = 4 && parts.all fun part => 1 ≤ part.length && part.length ≤ 3 && part.all Char.isDigit && parseInt part ≤ 255

-- /^([0-9a-fA-F]{0,4}:){2,7}[0-9a-fA-F]{0,4}$/, or the same behind a leading
-- `::` or behind one group and `::`, where up to five groups are not empty.
def hexGroup (least : Nat) (group : Text) : Bool := least ≤ group.length && group.length ≤ 4 && group.all isHexDigit

def hexTail (str : Text) : Bool :=
  let groups := str.splitOn ':'
  groups.length ≤ 6 && groups.dropLast.all (hexGroup 1) && (groups.getLastD []).all isHexDigit && (groups.getLastD []).length ≤ 4

def isIPv6 (str : Text) : Bool :=
  let groups := str.splitOn ':'
  let first := str.takeWhile (· ≠ ':')
  let rest := str.dropWhile (· ≠ ':')
  (3 ≤ groups.length && groups.length ≤ 8 && groups.all (hexGroup 0)) ||
    (startsWith str [':',':'] && hexTail (str.drop 2)) ||
    (hexGroup 1 first && startsWith rest [':',':'] && hexTail (rest.drop 2))

def isIP (str : Text) : Bool := isIPv4 str || isIPv6 str

def isValidLabel (label : Text) : Bool := domainLabel label

def isValidHostname (hostname : Text) : Bool :=
  if hostname = [] ∨ 253 < hostname.length then false
  else
    let normalized := if endsWith hostname ['.'] then hostname.dropLast else hostname
    if normalized.length = 0 then false else (normalized.splitOn '.').all isValidLabel

def lastParts (n : Nat) (parts : List Text) : Text := ['.'].intercalate (parts.drop (parts.length-n))

-- text.replace(/\.+$/, '')
def withoutDots (text : Text) : Text := text.rdropWhile (· = '.')

section Parsing
variable (toLowerCase : Text → Text)

def getPublicSuffix (domain : Text) : Option Text :=
  if domain = [] then none
  else
    let normalized := withoutDots (toLowerCase domain)
    let parts := normalized.splitOn '.'
    if parts.length = 0 then none
    else if 2 ≤ parts.length ∧ lastParts 2 parts ∈ MULTI_PART_SUFFIXES then some (lastParts 2 parts)
    else if 3 ≤ parts.length ∧ lastParts 3 parts ∈ MULTI_PART_SUFFIXES then some (lastParts 3 parts)
    else
      let tld := parts.getLastD []
      if tld ∈ COMMON_PUBLIC_SUFFIXES then some tld
      else if isValidLabel tld then some tld
      else none

def getDomain (hostname : Text) : Option Text :=
  if hostname = [] then none
  else
    let normalized := withoutDots (toLowerCase hostname)
    if isIP normalized then none
    else
      match getPublicSuffix toLowerCase normalized with
      | none | some [] => none
      | some publicSuffix =>
        let parts := normalized.splitOn '.'
        let suffixParts := publicSuffix.splitOn '.'
        if parts.length ≤ suffixParts.length then none
        else some (lastParts (suffixParts.length+1) parts)

def parse (hostname : Text) : ParsedHost :=
  if hostname = [] then ⟨none,false,none⟩
  else
    let lowered := trim (toLowerCase hostname)
    let normalized := if endsWith lowered ['.'] then lowered.dropLast else lowered
    if isIP normalized then ⟨some normalized,true,none⟩
    else if isValidHostname normalized = false then ⟨none,false,none⟩
    else ⟨some normalized,false,getPublicSuffix toLowerCase normalized⟩

end Parsing

example : parse lowerCase "WWW.Example.co.uk.".toList = ⟨some "www.example.co.uk".toList,false,some "co.uk".toList⟩ := by decide +kernel

structure Lowers (toLowerCase : Text → Text) : Prop where
  ascii : ∀ text : Text, (∀ c ∈ text, c.toNat < 128) → toLowerCase text = lowerCase text
  small : ∀ text, ∀ c ∈ toLowerCase text, c.isUpper = false

theorem lowerCase_lowers : Lowers lowerCase := by
  refine ⟨fun _ _ => rfl,?_⟩
  intro text c member
  obtain ⟨own,-,rfl⟩ := List.mem_map.mp member
  exact own.isUpper_toLower_eq_false

end AdblockCompiler.TldUtils
