import CacheUsage.Proofs.Defaults

namespace CacheUsage

open Json

theorem Json.MemberText.quantity {name : String} {n : UInt64} {between after behind : List Char}
    (hname : name.toList.all isPlain = true) (hbetween : Blank between) (hafter : Blank after)
    (hbehind : Blank behind) :
    MemberText Geometry.QuantityText (name, n) ('"' :: (name.toList ++ '"' :: (between ++ ':' ::
      (after ++ (decimal n.toNat ++ behind))))) := by
  have hvalue : Geometry.QuantityText n (decimal n.toNat) := rfl
  exact .intro blank_nil (spells_self hname) hbetween hafter hvalue hbehind

namespace Geometry

variable {g : Geometry} {ms : List (String × UInt64)}

def members (g : Geometry) : List (String × UInt64) :=
  [("size_bytes", g.sizeBytes), ("ways", g.ways), ("line_bytes", g.lineBytes)]

theorem lookup_of_perm (h : ms.Perm g.members) {m : String × UInt64} (hm : m ∈ g.members) :
    ms.lookup m.1 = some m.2 := by
  have hnames : (g.members.map Prod.fst).Nodup := by simp [members]
  exact lookup_eq_some ((h.map Prod.fst).nodup_iff.mpr hnames) (h.mem_iff.mpr hm)

theorem ofMembers_of_perm (h : ms.Perm g.members) : ofMembers ms = g := by
  have hsize : ms.lookup "size_bytes" = some g.sizeBytes := lookup_of_perm h (.head _)
  have hways : ms.lookup "ways" = some g.ways := lookup_of_perm h (.tail _ (.head _))
  have hline : ms.lookup "line_bytes" = some g.lineBytes :=
    lookup_of_perm h (.tail _ (.tail _ (.head _)))
  rw [ofMembers, hsize, hways, hline]
  rfl

end Geometry

namespace HierarchyGeometry

variable {g : HierarchyGeometry} {text : String}

def WrittenInFull (g : HierarchyGeometry) (text : List Char) : Prop :=
  ∃ ms, Written ms text ∧ ∀ level, ∃ fields, ms.lookup (key level) = some fields ∧
    fields.Perm (g.get level).members

/-- What is written in full is read as it is, or refused with its first defect. -/
theorem ofJson_of_writtenInFull (h : g.WrittenInFull text.toList) :
    ofJson text = match g.defect? with
      | none => .ok g
      | some (level, cause) => .error (.defective level cause) := by
  obtain ⟨ms, hwritten, hlevels⟩ := h
  have hmembers : ofMembers ms = g := by
    refine Levels.eq_of_get fun level => ?_
    obtain ⟨fields, hlookup, hperm⟩ := hlevels level
    rw [get_ofMembers, hlookup]
    exact Geometry.ofMembers_of_perm hperm
  rw [hwritten.ofJson_eq, hmembers]
  rfl

theorem ofJson_of_writtenInFull_huge_set :
    WrittenInFull
      ⟨⟨32768, 8, 64⟩, ⟨18446744073709551615, 288230376151711744, 64⟩, ⟨128, 0, 32⟩⟩
      (" \x7b\"ll\":\x7b\"ways\":0,\"size_bytes\":128,\"line_bytes\":32\x7d,\n\"l1_d\": \x7b" ++
        "\"line_bytes\" : 64\t,\"ways\":288230376151711744,\"size_bytes\":18446744073709551615" ++
        "\x7d , \"l1_i\":\x7b\"size_bytes\":32768,\"ways\":8,\"line_bytes\":64" ++
        "\x7d\r\x7d\n").toList ∧
    ofJson
      (" \x7b\"ll\":\x7b\"ways\":0,\"size_bytes\":128,\"line_bytes\":32\x7d,\n\"l1_d\": \x7b" ++
        "\"line_bytes\" : 64\t,\"ways\":288230376151711744,\"size_bytes\":18446744073709551615" ++
        "\x7d , \"l1_i\":\x7b\"size_bytes\":32768,\"ways\":8,\"line_bytes\":64" ++
        "\x7d\r\x7d\n") =
      .error (.defective .d1 (.unevenSets 18446744073709551615 64 288230376151711744)) := by
  -- Levels and fields in another order, blanks around some tokens. D1 is refused before LL: one set
  -- of it would fill the address space.
  have hspace : Blank [' '] := by decide
  have htab : Blank ['\t'] := by decide
  have hreturn : Blank ['\r'] := by decide
  have hnewline : Blank ['\n'] := by decide
  have hlast : Geometry.Written [("ways", 0), ("size_bytes", 128), ("line_bytes", 32)] _ :=
    ⟨⟨by simp, by simp⟩, .members (.quantity rfl blank_nil blank_nil blank_nil)
      (.cons (.quantity rfl blank_nil blank_nil blank_nil)
        (.cons (.quantity rfl blank_nil blank_nil blank_nil) .nil))⟩
  have hdata : Geometry.Written [("line_bytes", 64), ("ways", 288230376151711744),
      ("size_bytes", 18446744073709551615)] _ :=
    ⟨⟨by simp, by simp⟩, .members (.quantity rfl hspace hspace htab)
      (.cons (.quantity rfl blank_nil blank_nil blank_nil)
        (.cons (.quantity rfl blank_nil blank_nil blank_nil) .nil))⟩
  have hfetch : Geometry.Written [("size_bytes", 32768), ("ways", 8), ("line_bytes", 64)] _ :=
    ⟨⟨by simp, by simp⟩, .members (.quantity rfl blank_nil blank_nil blank_nil)
      (.cons (.quantity rfl blank_nil blank_nil blank_nil)
        (.cons (.quantity rfl blank_nil blank_nil blank_nil) .nil))⟩
  have hll : MemberText Geometry.Written ("ll", _) _ :=
    .intro blank_nil (spells_self rfl) blank_nil blank_nil hlast blank_nil
  have hd1 : MemberText Geometry.Written ("l1_d", _) _ :=
    .intro hnewline (spells_self rfl) blank_nil hspace hdata hspace
  have hi1 : MemberText Geometry.Written ("l1_i", _) _ :=
    .intro hspace (spells_self rfl) blank_nil blank_nil hfetch hreturn
  have hfull : WrittenInFull
      ⟨⟨32768, 8, 64⟩, ⟨18446744073709551615, 288230376151711744, 64⟩, ⟨128, 0, 32⟩⟩
      (" \x7b\"ll\":\x7b\"ways\":0,\"size_bytes\":128,\"line_bytes\":32\x7d,\n\"l1_d\": \x7b" ++
        "\"line_bytes\" : 64\t,\"ways\":288230376151711744,\"size_bytes\":18446744073709551615" ++
        "\x7d , \"l1_i\":\x7b\"size_bytes\":32768,\"ways\":8,\"line_bytes\":64" ++
        "\x7d\r\x7d\n").toList := by
    refine ⟨_, ⟨⟨by simp, by simp⟩, [' '], _, ['\n'], hspace,
      .members hll (.cons hd1 (.cons hi1 .nil)), hnewline, ?_⟩, ?_⟩
    · simp only [String.toList_append]
      decide +kernel
    · intro level
      cases level with
      | i1 => exact ⟨_, rfl, .refl _⟩
      | d1 => exact ⟨_, rfl, by decide⟩
      | ll => exact ⟨_, rfl, by decide⟩
  exact ⟨hfull, ofJson_of_writtenInFull hfull⟩

end HierarchyGeometry

end CacheUsage
