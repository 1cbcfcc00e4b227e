import CacheUsage.Levels.Json
import CacheUsage.Proofs.Json.Decimal
import CacheUsage.Proofs.Json.Object

namespace CacheUsage

open Json

namespace Geometry

variable {ms : List (String × UInt64)} {text : List Char}

def QuantityText (n : UInt64) (text : List Char) : Prop := text = decimal n.toNat

structure Written (ms : List (String × UInt64)) (text : List Char) : Prop where
  names : Among ["size_bytes", "ways", "line_bytes"] ms
  object : ObjectText QuantityText ms text

/-- The geometry of the fields that are written. The others are those of the first-level default. -/
def ofMembers (ms : List (String × UInt64)) : Geometry :=
  { sizeBytes := (ms.lookup "size_bytes").getD firstLevelDefault.sizeBytes
    ways := (ms.lookup "ways").getD firstLevelDefault.ways
    lineBytes := (ms.lookup "line_bytes").getD firstLevelDefault.lineBytes }

theorem reads_quantity (n : UInt64) : Reader.Reads quantity (decimal n.toNat) n := by
  have hnat : Reader.Reads (Reader.natural UInt64.size "usize") (decimal n.toNat) n.toNat :=
    reads_natural n.toNat_lt (Nat.le_refl _)
  have h := hnat.map Nat.toUInt64
  rwa [Nat.toUInt64_eq, UInt64.ofNat_toNat] at h

theorem reads_reader (h : Written ms text) : Reader.Reads reader text (ofMembers ms) := by
  have hval : ∀ n value, QuantityText n value → Reader.Reads quantity value (id n) := by
    rintro n _ rfl
    exact reads_quantity n
  have hrecord := Reader.reads_record (by decide) hval h.object h.names "struct CacheConfig"
  have hgeometry : ofMembers ms = ofGiven (given "size_bytes" "ways" "line_bytes" id ms) := by
    simp [ofMembers, ofGiven, given]
  rw [hgeometry]
  exact hrecord.map fun p => ofGiven p.2

end Geometry

namespace HierarchyGeometry

variable {g : HierarchyGeometry} {ms : List (String × List (String × UInt64))} {text : String}

structure Written (ms : List (String × List (String × UInt64))) (text : List Char) : Prop where
  names : Among ["l1_i", "l1_d", "ll"] ms
  object : ∃ before object after, Blank before ∧ ObjectText Geometry.Written ms object ∧
    Blank after ∧ text = before ++ (object ++ after)

def ofMembers (ms : List (String × List (String × UInt64))) : HierarchyGeometry :=
  { i1 := ((ms.lookup "l1_i").map Geometry.ofMembers).getD HierarchyGeometry.default.i1
    d1 := ((ms.lookup "l1_d").map Geometry.ofMembers).getD HierarchyGeometry.default.d1
    ll := ((ms.lookup "ll").map Geometry.ofMembers).getD HierarchyGeometry.default.ll }

theorem reads_reader {object : List Char} (hnames : Among ["l1_i", "l1_d", "ll"] ms)
    (h : ObjectText Geometry.Written ms object) : Reader.Reads reader object (ofMembers ms) := by
  have hval : ∀ fields value, Geometry.Written fields value →
      Reader.Reads Geometry.reader value (Geometry.ofMembers fields) :=
    fun _ _ => Geometry.reads_reader
  have hrecord := Reader.reads_record (by decide) hval h hnames "struct CacheHierarchyConfig"
  exact hrecord.map fun p => ofGiven p.2

theorem Written.ofJson_eq (h : Written ms text.toList) : ofJson text = (ofMembers ms).checked := by
  obtain ⟨before, object, after, hbefore, hobject, hafter, htext⟩ := h.object
  rw [ofJson, (reads_reader h.names hobject).readAll_eq hbefore hafter htext]

def key : Level → String
  | .i1 => "l1_i"
  | .d1 => "l1_d"
  | .ll => "ll"

theorem get_ofMembers (ms : List (String × List (String × UInt64))) (level : Level) :
    (ofMembers ms).get level = ((ms.lookup (key level)).map Geometry.ofMembers).getD
      (HierarchyGeometry.default.get level) := by
  cases level <;> rfl

/-- A level that is left out is its own default. A field that is left out of a level is that of the
first-level default, also in the last level. -/
theorem ofJson_fillsIn (h : Written ms text.toList) (hok : ofJson text = .ok g) (level : Level) :
    (ms.lookup (key level) = none → g.get level = HierarchyGeometry.default.get level) ∧
    ∀ fields, ms.lookup (key level) = some fields →
      g.get level = ⟨(fields.lookup "size_bytes").getD 32768, (fields.lookup "ways").getD 8,
        (fields.lookup "line_bytes").getD 64⟩ := by
  rw [h.ofJson_eq] at hok
  obtain ⟨_, rfl⟩ := checked_eq_ok.mp hok
  rw [get_ofMembers]
  constructor
  · intro hnone
    rw [hnone]
    rfl
  · intro fields hfields
    rw [hfields]
    rfl

theorem ofJson_fillsIn_ways :
    Written [("ll", [("ways", 4)])] " \x7b\"ll\": \x7b\"w\\u0061ys\" :4\x7d\x7d".toList ∧
      ∃ g, ofJson " \x7b\"ll\": \x7b\"w\\u0061ys\" :4\x7d\x7d" = .ok g ∧
        g.get .i1 = HierarchyGeometry.default.get .i1 ∧ g.get .ll = ⟨32768, 4, 64⟩ := by
  -- One field is written, with an escape in its name.
  have hunit : HexUnit ['0', '0', '6', '1'] (((0 * 16 + 0) * 16 + 6) * 16 + 1) :=
    .intro rfl rfl rfl rfl
  have hrest : Spells ['y', 's'] ['y', 's'] := spells_self rfl
  have hname : Spells ('w' :: '\\' :: 'u' :: (['0', '0', '6', '1'] ++ ['y', 's'])) "ways".toList :=
    Spells.plain rfl (.unit hunit rfl rfl hrest)
  have hfour : Geometry.QuantityText 4 ['4'] := rfl
  have hways : MemberText Geometry.QuantityText ("ways", 4) "\"w\\u0061ys\" :4".toList :=
    .intro blank_nil hname (show Blank [' '] by decide) blank_nil hfour blank_nil
  have hll : Geometry.Written [("ways", 4)] "\x7b\"w\\u0061ys\" :4\x7d".toList :=
    ⟨⟨by simp, by simp⟩, .members hways .nil⟩
  have hmember : MemberText Geometry.Written ("ll", [("ways", 4)])
      "\"ll\": \x7b\"w\\u0061ys\" :4\x7d".toList :=
    .intro blank_nil (spells_self rfl) blank_nil (show Blank [' '] by decide) hll blank_nil
  have hwritten : Written [("ll", [("ways", 4)])]
      " \x7b\"ll\": \x7b\"w\\u0061ys\" :4\x7d\x7d".toList :=
    ⟨⟨by simp, by simp⟩, [' '], _, [], by decide, .members hmember .nil, blank_nil, rfl⟩
  have hok := hwritten.ofJson_eq
  exact ⟨hwritten, _, hok, (ofJson_fillsIn hwritten hok .i1).1 rfl,
    (ofJson_fillsIn hwritten hok .ll).2 _ rfl⟩

theorem ofJson_ll_eq_firstLevelDefault :
    Written [("ll", [])] "\x7b\"ll\": \x7b\x7d\x7d".toList ∧
      ofJson "\x7b\"ll\": \x7b\x7d\x7d" =
        .ok ⟨⟨32768, 8, 64⟩, ⟨32768, 8, 64⟩, ⟨32768, 8, 64⟩⟩ ∧
      HierarchyGeometry.default.ll = ⟨8388608, 16, 64⟩ := by
  have hll : Geometry.Written [] ['{', '}'] := ⟨⟨by simp, by simp⟩, .empty blank_nil⟩
  have hmember : MemberText Geometry.Written ("ll", []) "\"ll\": \x7b\x7d".toList :=
    .intro blank_nil (spells_self rfl) blank_nil (show Blank [' '] by decide) hll blank_nil
  have hwritten : Written [("ll", [])] "\x7b\"ll\": \x7b\x7d\x7d".toList :=
    ⟨⟨by simp, by simp⟩, [], _, [], blank_nil, .members hmember .nil, blank_nil, rfl⟩
  exact ⟨hwritten, hwritten.ofJson_eq, rfl⟩

end HierarchyGeometry

end CacheUsage
