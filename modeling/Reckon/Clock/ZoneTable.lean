import Reckon.Clock.Zone

/-!
A table of a few zones. Asia/Tokyo, Asia/Kolkata and Asia/Kathmandu have all their changes; the
zones with a season have the rule that is in force since 2009 at all times.
-/

set_option autoImplicit false

namespace Reckon.Zone

/-- The season of the European zones: from the last Sunday of March to that of October, at 01:00
UTC. -/
def europeanSeason : Season :=
  ⟨3600, ⟨3, .last, 3600, 0⟩, ⟨10, .last, 3600, 0⟩⟩

/-- An era that ended at a second of a day of UTC. -/
def eraUntil (year month day seconds offset : Int) : Era :=
  ⟨offset, LocalTime.make ⟨year, month, day⟩ 0 0 seconds 0⟩

def tokyo : Zone :=
  { name := "Asia/Tokyo"
    standard := 32400
    eras :=
      [ eraUntil 1887 12 31 54000 33539,
        eraUntil 1948 5 1 54000 32400,
        eraUntil 1948 9 11 54000 36000,
        eraUntil 1949 4 2 54000 32400,
        eraUntil 1949 9 10 54000 36000,
        eraUntil 1950 5 6 54000 32400,
        eraUntil 1950 9 9 54000 36000,
        eraUntil 1951 5 5 54000 32400,
        eraUntil 1951 9 8 54000 36000 ] }

def kolkata : Zone :=
  { name := "Asia/Kolkata"
    standard := 19800
    eras :=
      [ eraUntil 1854 6 27 65192 21208,
        eraUntil 1869 12 31 65200 21200,
        eraUntil 1905 12 31 67130 19270,
        eraUntil 1941 9 30 66600 19800,
        eraUntil 1942 5 14 63000 23400,
        eraUntil 1942 8 31 66600 19800,
        eraUntil 1945 10 14 63000 23400 ] }

def kathmandu : Zone :=
  { name := "Asia/Kathmandu"
    standard := 20700
    eras := [eraUntil 1919 12 31 65924 20476, eraUntil 1985 12 31 66600 19800] }

def paris : Zone :=
  { name := "Europe/Paris", standard := 3600, season := some europeanSeason }

def newYork : Zone :=
  { name := "America/New_York"
    standard := -18000
    season := some ⟨3600, ⟨3, .second, 7200, -18000⟩, ⟨11, .first, 7200, -14400⟩⟩ }

def beirut : Zone :=
  { name := "Asia/Beirut"
    standard := 7200
    season := some ⟨3600, ⟨3, .last, 0, 7200⟩, ⟨10, .last, 0, 10800⟩⟩ }

def gmtMinus14 : Zone :=
  fixed "Etc/GMT-14" 50400

def known : List Zone :=
  [ utc,
    fixed "GMT" 0,
    fixed "EST" (-18000),
    gmtMinus14,
    tokyo,
    kolkata,
    kathmandu,
    paris,
    { name := "Europe/London", standard := 0, season := some europeanSeason },
    newYork,
    { name := "Australia/Sydney"
      standard := 36000
      season := some ⟨3600, ⟨10, .first, 7200, 36000⟩, ⟨4, .first, 10800, 39600⟩⟩ },
    { name := "Australia/Lord_Howe"
      standard := 37800
      season := some ⟨1800, ⟨10, .first, 7200, 37800⟩, ⟨4, .first, 7200, 39600⟩⟩ },
    beirut ]

/-- The zone of a name; names are exact, but for UTC in any case, which keeps its spelling. -/
def ofName? (name : String) : Option Zone :=
  if name.toLower == "utc" then some (fixed name 0) else known.find? (·.name == name)

end Reckon.Zone
