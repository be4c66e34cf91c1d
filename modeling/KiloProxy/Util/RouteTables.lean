import KiloProxy.Text.Kotlin

/-!
# The shipped route tables

The two string arrays `Routes.addRoutes` reads from the resources.
-/

namespace KiloProxy.Util.Routes
set_option autoImplicit false
open KiloProxy.Text

/-- `simple_route` of `simpleroute.xml`. -/
def simpleRoute : List Str := List.map String.toList
  ["1.0.1.0/24", "1.0.2.0/23", "1.0.8.0/21", "1.0.32.0/19", "1.1.0.0/24", "1.2.0.0/14",
   "1.12.0.0/14", "1.24.0.0/13", "1.45.0.0/16", "1.48.0.0/14", "1.56.0.0/13", "1.180.0.0/14",
   "14.0.0.0/12", "14.103.0.0/16", "14.128.0.0/11", "27.0.0.0/12", "27.36.0.0/13", "36.0.0.0/12",
   "42.0.0.0/10", "43.224.0.0/12", "47.92.0.0/13", "49.0.0.0/11", "58.0.0.0/11", "58.32.0.0/11",
   "59.32.0.0/11", "60.0.0.0/10", "61.128.0.0/10", "101.0.0.0/10", "103.0.0.0/10", "106.0.0.0/10",
   "110.0.0.0/10", "111.0.0.0/10", "112.0.0.0/10", "113.0.0.0/10", "114.0.0.0/10", "115.0.0.0/10",
   "116.0.0.0/10", "117.0.0.0/10", "118.0.0.0/10", "119.0.0.0/10", "120.0.0.0/10", "121.0.0.0/10",
   "122.0.0.0/10", "123.0.0.0/10", "124.0.0.0/10", "125.0.0.0/10", "139.0.0.0/10",
   "140.206.0.0/15", "150.138.0.0/15", "153.0.0.0/11", "157.0.0.0/11", "163.125.0.0/16",
   "163.177.0.0/16", "171.0.0.0/11", "175.0.0.0/11", "180.76.0.0/16", "180.96.0.0/11",
   "182.0.0.0/10", "183.0.0.0/10", "202.0.0.0/11", "210.0.0.0/11", "211.0.0.0/11", "218.0.0.0/10",
   "219.128.0.0/10", "220.160.0.0/11", "221.0.0.0/10", "222.0.0.0/10", "223.0.0.0/11"]

/-- `ru_route` of `ruroute.xml`. -/
def ruRoute : List Str := List.map String.toList
  ["2.60.0.0/14", "2.92.0.0/14", "5.16.0.0/14", "5.45.192.0/18", "5.136.0.0/13", "31.173.0.0/16",
   "37.144.0.0/13", "46.0.0.0/12", "77.37.128.0/17", "78.106.0.0/15", "79.126.0.0/15",
   "80.246.240.0/20", "82.137.128.0/17", "83.149.0.0/16", "85.26.0.0/16", "89.169.0.0/16",
   "91.76.0.0/14", "92.242.0.0/15", "93.80.0.0/14", "94.25.0.0/16", "95.24.0.0/13",
   "109.184.0.0/15", "128.68.0.0/15", "176.59.0.0/16", "176.208.0.0/13", "178.44.0.0/14",
   "178.64.0.0/13", "188.162.0.0/15", "188.170.0.0/15", "188.242.0.0/15", "212.1.224.0/19",
   "213.87.0.0/16", "217.118.64.0/18"]

end KiloProxy.Util.Routes
