import FirmwareVars.Guid.Text

/-!
# Well-known vendors

Some vendors have a name.  The table is sorted by the canonical text of the
GUIDs, so a name is found by halving.
-/

namespace FirmwareVars

/-- A vendor with a name. -/
structure Vendor where
  /-- The GUID of the vendor's variables. -/
  guid : Guid
  /-- The name. -/
  name : String
deriving DecidableEq, Repr

namespace Vendor

/-- The shell, which keeps its environment in variables of this vendor. -/
def shell : Vendor :=
  ⟨⟨0x158def5a, 0xf656, 0x419c, #v[0xb0, 0x27, 0x7a, 0x31, 0x92, 0xc0, 0x79, 0xd2]⟩,
    "ShellVariable"⟩

/-- The vendors with a name, in the order of their canonical text. -/
def known : List Vendor :=
  [⟨⟨0x0053d9d6, 0x2659, 0x4599, #v[0xa2, 0x6b, 0xef, 0x45, 0x36, 0xe6, 0x31, 0xa9]⟩,
      "ShellAlias"⟩,
    shell,
    ⟨⟨0x4a67b082, 0x0a4c, 0x41cf, #v[0xb6, 0xc7, 0x44, 0x0b, 0x29, 0xbb, 0x8c, 0x4f]⟩,
      "LoaderInfo"⟩,
    ⟨⟨0x605dab50, 0xe046, 0x4300, #v[0xab, 0xb6, 0x3d, 0xd8, 0x10, 0xdd, 0x8b, 0x23]⟩,
      "ShimLock"⟩,
    ⟨⟨0x77fa9abd, 0x0359, 0x4d32, #v[0xbd, 0x60, 0x28, 0xf4, 0xe7, 0x8f, 0x78, 0x4b]⟩,
      "MicrosoftVendor"⟩,
    ⟨Guid.globalVariable, "EfiGlobalVariable"⟩,
    ⟨⟨0xd719b2cb, 0x3d3a, 0x4596, #v[0xa3, 0xbc, 0xda, 0xd0, 0x0e, 0x67, 0x65, 0x6f]⟩,
      "EfiImageSecurityDatabase"⟩]

/-- The vendor with this canonical text in a sorted list, found by halving. -/
def search (text : List UInt8) (vendors : List Vendor) : Option Vendor :=
  match h : vendors.drop (vendors.length / 2) with
  | [] => none
  | middle :: after =>
      if middle.guid.canonical = text then some middle
      else if middle.guid.canonical < text then search text after
      else search text (vendors.take (vendors.length / 2))
termination_by vendors.length
decreasing_by
  all_goals
    have length_drop := congrArg List.length h
    simp only [List.length_drop, List.length_cons, List.length_take] at length_drop ⊢
    omega

/-- The name of the vendor with this GUID. -/
def name? (g : Guid) : Option String := (search g.canonical known).map Vendor.name

/-- The vendor with this GUID as log records name it. -/
def label (g : Guid) : String := (name? g).getD "vendor"

end Vendor

end FirmwareVars
