/-
Marc8.Bundled — the table that comes with the program.

It holds six charsets: Basic Latin (0x42), Extended Latin (0x45), the Greek
symbols (0x67), the subscripts (0x62), the superscripts (0x70) and the
multi-byte East Asian charset (0x31). It is kept as the lines of a listing, and
`Bundled.table` is what the reader makes of them.

Only the lines that say something are kept. Comments and blank lines between
them are left out, as the reader passes over these in any listing; only the
numbers of the lines depend on them, and these are told of a bad line alone.
-/
import Marc8.Listing.Reader

namespace Marc8.Bundled

/-- The lines of the listing. -/
def lines : List String :=
  ["multibyte 0x31",
   "charset 0x42",
   "0x1B 0x001B", "0x1D 0x001D", "0x1E 0x001E", "0x1F 0x001F", "0x21 0x0021", "0x22 0x0022",
   "0x23 0x0023", "0x24 0x0024", "0x25 0x0025", "0x26 0x0026", "0x27 0x0027", "0x28 0x0028",
   "0x29 0x0029", "0x2A 0x002A", "0x2B 0x002B", "0x2C 0x002C", "0x2D 0x002D", "0x2E 0x002E",
   "0x2F 0x002F", "0x30 0x0030", "0x31 0x0031", "0x32 0x0032", "0x33 0x0033", "0x34 0x0034",
   "0x35 0x0035", "0x36 0x0036", "0x37 0x0037", "0x38 0x0038", "0x39 0x0039", "0x3A 0x003A",
   "0x3B 0x003B", "0x3C 0x003C", "0x3D 0x003D", "0x3E 0x003E", "0x3F 0x003F", "0x40 0x0040",
   "0x41 0x0041", "0x42 0x0042", "0x43 0x0043", "0x44 0x0044", "0x45 0x0045", "0x46 0x0046",
   "0x47 0x0047", "0x48 0x0048", "0x49 0x0049", "0x4A 0x004A", "0x4B 0x004B", "0x4C 0x004C",
   "0x4D 0x004D", "0x4E 0x004E", "0x4F 0x004F", "0x50 0x0050", "0x51 0x0051", "0x52 0x0052",
   "0x53 0x0053", "0x54 0x0054", "0x55 0x0055", "0x56 0x0056", "0x57 0x0057", "0x58 0x0058",
   "0x59 0x0059", "0x5A 0x005A", "0x5B 0x005B", "0x5C 0x005C", "0x5D 0x005D", "0x5E 0x005E",
   "0x5F 0x005F", "0x60 0x0060", "0x61 0x0061", "0x62 0x0062", "0x63 0x0063", "0x64 0x0064",
   "0x65 0x0065", "0x66 0x0066", "0x67 0x0067", "0x68 0x0068", "0x69 0x0069", "0x6A 0x006A",
   "0x6B 0x006B", "0x6C 0x006C", "0x6D 0x006D", "0x6E 0x006E", "0x6F 0x006F", "0x70 0x0070",
   "0x71 0x0071", "0x72 0x0072", "0x73 0x0073", "0x74 0x0074", "0x75 0x0075", "0x76 0x0076",
   "0x77 0x0077", "0x78 0x0078", "0x79 0x0079", "0x7A 0x007A", "0x7B 0x007B", "0x7C 0x007C",
   "0x7D 0x007D", "0x7E 0x007E",
   "combining 0x42",
   "charset 0x45",
   "0x88 0x0098", "0x89 0x009C", "0x8D 0x200D", "0x8E 0x200C", "0xA1 0x0141", "0xA2 0x00D8",
   "0xA3 0x0110", "0xA4 0x00DE", "0xA5 0x00C6", "0xA6 0x0152", "0xA7 0x02B9", "0xA8 0x00B7",
   "0xA9 0x266D", "0xAA 0x00AE", "0xAB 0x00B1", "0xAC 0x01A0", "0xAD 0x01AF", "0xAE 0x02BC",
   "0xAF -", "0xB0 0x02BB", "0xB1 0x0142", "0xB2 0x00F8", "0xB3 0x0111", "0xB4 0x00FE",
   "0xB5 0x00E6", "0xB6 0x0153", "0xB7 0x02BA", "0xB8 0x0131", "0xB9 0x00A3", "0xBA 0x00F0",
   "0xBC 0x01A1", "0xBD 0x01B0", "0xC0 0x00B0", "0xC1 0x2113", "0xC2 0x2117", "0xC3 0x00A9",
   "0xC4 0x266F", "0xC5 0x00BF", "0xC6 0x00A1", "0xC7 0x00DF", "0xC8 0x20AC", "0xE0 0x0309",
   "0xE1 0x0300", "0xE2 0x0301", "0xE3 0x0302", "0xE4 0x0303", "0xE5 0x0304", "0xE6 0x0306",
   "0xE7 0x0307", "0xE8 0x0308", "0xE9 0x030C", "0xEA 0x030A", "0xEB 0xFE20", "0xEC 0xFE21",
   "0xED 0x0315", "0xEE 0x030B", "0xEF 0x0310", "0xF0 0x0327", "0xF1 0x0328", "0xF2 0x0323",
   "0xF3 0x0324", "0xF4 0x0325", "0xF5 0x0333", "0xF6 0x0332", "0xF7 0x0326", "0xF8 0x031C",
   "0xF9 0x032E", "0xFA 0xFE22", "0xFB 0xFE23", "0xFE 0x0313",
   "combining 0x45 0xE0 0xE1 0xE2 0xE3 0xE4 0xE5 0xE6 0xE7 0xE8 0xE9 0xEA"
      ++ " 0xEB 0xEC 0xED 0xEE 0xEF 0xF0 0xF1 0xF2 0xF3 0xF4 0xF5 0xF6 0xF7 0xF8 0xF9 0xFA 0xFB 0xFE",
   "charset 0x67",
   "0x61 0x03B1", "0x62 0x03B2", "0x63 0x03B3",
   "combining 0x67",
   "charset 0x62",
   "0x30 0x2080", "0x31 0x2081", "0x32 0x2082", "0x33 0x2083", "0x34 0x2084", "0x35 0x2085",
   "0x36 0x2086", "0x37 0x2087", "0x38 0x2088", "0x39 0x2089", "0x28 0x208D", "0x29 0x208E",
   "0x2B 0x208A", "0x2D 0x208B",
   "combining 0x62",
   "charset 0x70",
   "0x30 0x2070", "0x31 0x00B9", "0x32 0x00B2", "0x33 0x00B3", "0x34 0x2074", "0x35 0x2075",
   "0x36 0x2076", "0x37 0x2077", "0x38 0x2078", "0x39 0x2079", "0x28 0x207D", "0x29 0x207E",
   "0x2B 0x207A", "0x2D 0x207B",
   "combining 0x70",
   "charset 0x31",
   "0x212328 0xFF08", "0x212329 0xFF09", "0x21232D 0xFF1A", "0x213021 0x4E00", "0x213022 0x4E01",
   "0x213023 0x4E03", "0x213024 0x4E09", "0x213025 0x4E0A", "0x213026 0x4E0B", "0x213E6B -",
   "0x215021 0x8173", "0x215022 0x8178", "0x21502A 0x817F", "0x217E21 0x9F98", "0x223021 0x4E2B",
   "0x223022 0x4E2C", "0x233021 0x4E3E", "0x233022 0x4E49", "0x275021 0x4E66", "0x275022 0x4E3A",
   "0x2D3021 0x4E99", "0x2D3022 0x4EDE", "0x692421 0x3041", "0x692422 0x3042", "0x692521 0x30A1",
   "0x692522 0x30A2", "0x7D2121 -",
   "combining 0x31"]

/-- The listing of the table. -/
def listing : String := Text.ofLines lines

/-- What a listing reads as, or the empty table if it does not read. -/
def tableOf (text : String) : CodeTable :=
  match Listing.read text with
  | .ok t => t
  | .error _ => default

/-- The table. -/
def table : CodeTable := tableOf listing

end Marc8.Bundled
